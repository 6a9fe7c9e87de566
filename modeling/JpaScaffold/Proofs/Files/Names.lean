import JpaScaffold.Files.Path

/-!
# Names on a path

A plain name leads one step down. A text that joins plain names with slashes names the path of these
names, from wherever it is read.
-/
namespace JpaScaffold.Files

variable {name : String} {names : List String}

/-- A name that leads one step down, and nowhere else. -/
structure IsName (name : String) : Prop where
  ne_empty : name ≠ ""
  ne_here : name ≠ "."
  ne_back : name ≠ ".."
  no_slash : '/' ∉ name.toList

namespace Path

theorem follow_of_isName (h : IsName name) (p : Path) : p.follow name = p ++ [name] := by
  unfold follow
  rw [if_neg (not_or.2 ⟨h.ne_empty, h.ne_here⟩), if_neg h.ne_back]

theorem foldl_follow (h : ∀ name ∈ names, IsName name) (p : Path) :
    names.foldl follow p = p ++ names := by
  induction names generalizing p with
  | nil => rw [List.foldl_nil, List.append_nil]
  | cons name rest ih =>
    obtain ⟨hname, hrest⟩ := List.forall_mem_cons.1 h
    rw [List.foldl_cons, follow_of_isName hname, ih hrest, List.append_assoc, List.singleton_append]

theorem names_intercalate (hne : names ≠ []) (h : ∀ name ∈ names, IsName name) :
    Path.names ("/".intercalate names) = names := by
  have hslash : ∀ l ∈ names.map String.toList, '/' ∉ l := by
    intro l hl
    obtain ⟨name, hname, rfl⟩ := List.mem_map.1 hl
    exact (h name hname).no_slash
  have hsplit := List.splitOn_intercalate '/' hslash (by simpa using hne)
  have htext : ("/".intercalate names).toList = ['/'].intercalate (names.map String.toList) := by
    rw [String.toList_intercalate]
    rfl
  rw [Path.names, htext]
  refine (congrArg (List.map String.ofList) hsplit).trans ?_
  rw [List.map_map]
  exact List.map_id'' (fun name => String.ofList_toList) names

theorem head?_intercalate (h : ∀ name ∈ names, IsName name) :
    ("/".intercalate names).toList.head? ≠ some '/' := by
  rw [String.toList_intercalate]
  cases names with
  | nil => simp
  | cons name rest =>
    obtain ⟨hname, -⟩ := List.forall_mem_cons.1 h
    obtain ⟨c, cs, hchars⟩ := List.exists_cons_of_ne_nil
      (show name.toList ≠ [] by simpa using hname.ne_empty)
    have hhead : (("/".toList).intercalate ((name :: rest).map String.toList)).head? = some c := by
      cases rest with
      | nil =>
        rw [List.map_singleton, List.intercalate_singleton, hchars]
        rfl
      | cons next rest =>
        rw [List.map_cons, List.intercalate_cons_of_ne_nil (by simp), hchars]
        rfl
    rw [hhead]
    rintro ⟨⟩
    apply hname.no_slash
    rw [hchars]
    exact List.mem_cons_self

theorem resolve_intercalate (hne : names ≠ []) (h : ∀ name ∈ names, IsName name) (here : Path) :
    Path.resolve here ("/".intercalate names) = here ++ names := by
  unfold resolve
  rw [if_neg (head?_intercalate h), names_intercalate hne h, foldl_follow h]

end Path

end JpaScaffold.Files
