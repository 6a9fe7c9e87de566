import JpaScaffold.Proofs.Java.Lexeme
import JpaScaffold.Proofs.Java.TypeRef

/-!
# Simple names

A simple name is made of word characters, so no blank, point or bracket stands in it: it is a dotted
name of one segment, and as a text it writes the type of that name.
-/
namespace JpaScaffold.Java

open Text (isBlank)

variable {cs ds : List Char} {s : String}

theorem isWordChar_of_isNameStart {c : Char} (h : isNameStart c = true) : isWordChar c = true := by
  simp only [isNameStart, Bool.or_eq_true] at h
  simp only [isWordChar, Text.isAlphanumeric, Bool.or_eq_true]
  tauto

theorem isWordChar_of_isSimpleName (h : isSimpleName cs = true) : ∀ c ∈ cs, isWordChar c = true := by
  cases cs with
  | nil => exact List.forall_mem_nil _
  | cons c cs =>
    obtain ⟨hc, hcs⟩ := Bool.and_eq_true_iff.1 h
    exact List.forall_mem_cons.2 ⟨isWordChar_of_isNameStart hc, List.all_eq_true.1 hcs⟩

theorem ne_nil_of_isSimpleName (h : isSimpleName cs = true) : cs ≠ [] := by
  rintro rfl
  cases h

theorem isSimpleName_append (h : isSimpleName cs = true) (hd : ∀ c ∈ ds, isWordChar c = true) :
    isSimpleName (cs ++ ds) = true := by
  cases cs with
  | nil => cases h
  | cons c cs =>
    obtain ⟨hc, hcs⟩ := Bool.and_eq_true_iff.1 h
    have hds : ds.all isNameChar = true := List.all_eq_true.2 hd
    have hall : (cs ++ ds).all isNameChar = true := by rw [List.all_append, hcs, hds, Bool.and_true]
    exact Bool.and_eq_true_iff.2 ⟨hc, hall⟩

theorem splitOnP_of_isSimpleName (h : isSimpleName cs = true) : cs.splitOnP (· == '.') = [cs] := by
  refine List.splitOnP_eq_singleton fun c hc => ?_
  have hword := isWordChar_of_isSimpleName h c hc
  rw [beq_eq_false_iff_ne]
  rintro rfl
  revert hword
  decide +kernel

theorem isQualifiedName_of_isSimpleName (h : isSimpleName cs = true) : isQualifiedName cs = true := by
  unfold isQualifiedName
  rw [splitOnP_of_isSimpleName h]
  exact h

theorem areSegments_of_simple {segments : List (List Char)}
    (h : ∀ s ∈ segments, isSimpleName s = true) : areSegments segments = true := by
  induction segments with
  | nil => rfl
  | cons s rest ih =>
    obtain ⟨hs, hrest⟩ := List.forall_mem_cons.1 h
    cases rest with
    | nil => exact Bool.or_eq_true_iff.2 (.inl hs)
    | cons r rest => exact Bool.and_eq_true_iff.2 ⟨hs, ih hrest⟩

theorem isQualifiedName_of_simple (h : ∀ s ∈ cs.splitOnP (· == '.'), isSimpleName s = true) :
    isQualifiedName cs = true := by
  unfold isQualifiedName
  split
  · next only honly =>
    rw [honly] at h
    exact h only List.mem_cons_self
  · exact areSegments_of_simple h

theorem splitOnP_fullName {package name : String} (h : isSimpleName name.toList = true) :
    (package ++ "." ++ name).toList.splitOnP (· == '.') =
      package.toList.splitOnP (· == '.') ++ [name.toList] := by
  have htext : (package ++ "." ++ name).toList = package.toList ++ '.' :: name.toList := by
    simp [String.toList_append]
  rw [htext, ← splitOnP_of_isSimpleName h]
  exact List.splitOnP_append_cons _ _ (by decide)

theorem simple_of_fullName {package name : String}
    (hp : ∀ s ∈ package.toList.splitOnP (· == '.'), isSimpleName s = true)
    (hn : isSimpleName name.toList = true) :
    ∀ s ∈ (package ++ "." ++ name).toList.splitOnP (· == '.'), isSimpleName s = true := by
  rw [splitOnP_fullName hn]
  intro s hs
  rcases List.mem_append.1 hs with hs | hs
  · exact hp s hs
  · rwa [List.mem_singleton.1 hs]

theorem simple_or_star_of_areSegments {segments : List (List Char)}
    (h : areSegments segments = true) : ∀ s ∈ segments, isSimpleName s = true ∨ s = ['*'] := by
  induction segments with
  | nil => exact List.forall_mem_nil _
  | cons s rest ih =>
    cases rest with
    | nil =>
      simp only [areSegments, Bool.or_eq_true, beq_iff_eq] at h
      exact List.forall_mem_singleton.2 h
    | cons r rest =>
      obtain ⟨hs, hrest⟩ := Bool.and_eq_true_iff.1 h
      exact List.forall_mem_cons.2 ⟨.inl hs, ih hrest⟩

theorem simple_or_star_of_isQualifiedName (h : isQualifiedName cs = true) :
    ∀ s ∈ cs.splitOnP (· == '.'), isSimpleName s = true ∨ s = ['*'] := by
  unfold isQualifiedName at h
  split at h
  · next only honly =>
    rw [honly]
    exact List.forall_mem_singleton.2 (.inl h)
  · exact simple_or_star_of_areSegments h

theorem trimmed_of_isSimpleName (h : isSimpleName cs = true) : Text.trim cs = cs := by
  have hword := isWordChar_of_isSimpleName h
  refine (⟨fun c hc => ?_, fun c hc => ?_⟩ : Text.Trimmed cs).trim_eq
  · exact isBlank_eq_false_of_isWordChar (hword c (List.mem_of_mem_head? hc))
  · exact isBlank_eq_false_of_isWordChar (hword c (List.mem_of_mem_getLast? hc))

/-- A dotted name starts like a simple one. -/
theorem exists_cons_of_isQualifiedName (h : isQualifiedName cs = true) :
    ∃ c rest, cs = c :: rest ∧ isNameStart c = true := by
  cases cs with
  | nil =>
    have hnil : isQualifiedName [] = false := by decide
    rw [hnil] at h
    cases h
  | cons c cs =>
    refine ⟨c, cs, rfl, ?_⟩
    unfold isQualifiedName at h
    rw [List.splitOnP_cons_eq_if_modifyHead] at h
    obtain ⟨s, rest, hs⟩ := List.exists_cons_of_ne_nil (List.splitOnP_ne_nil (· == '.') cs)
    rw [hs] at h
    by_cases hc : (c == '.') = true
    · rw [if_pos hc] at h
      simp [areSegments, isSimpleName] at h
    · rw [if_neg hc, List.modifyHead_cons] at h
      have hsimple : isSimpleName (c :: s) = true := by
        cases rest with
        | nil => exact h
        | cons r rest => exact (Bool.and_eq_true_iff.1 h).1
      exact (Bool.and_eq_true_iff.1 hsimple).1

theorem trim_fullName {package name : String} (hp : isQualifiedName package.toList = true)
    (hn : isSimpleName name.toList = true) :
    Text.mapChars Text.trim (package ++ "." ++ name) = package ++ "." ++ name := by
  obtain ⟨c, rest, hpackage, hc⟩ := exists_cons_of_isQualifiedName hp
  have hne := ne_nil_of_isSimpleName hn
  have htrimmed : Text.Trimmed (package ++ "." ++ name).toList := by
    refine ⟨fun d hd => ?_, fun d hd => ?_⟩
    · rw [String.toList_append, String.toList_append, hpackage] at hd
      cases hd
      exact isBlank_eq_false_of_isWordChar (isWordChar_of_isNameStart hc)
    · rw [String.toList_append, List.getLast?_append_of_ne_nil _ hne] at hd
      exact isBlank_eq_false_of_isWordChar
        (isWordChar_of_isSimpleName hn d (List.mem_of_mem_getLast? hd))
  rw [Text.mapChars, htrimmed.trim_eq, String.ofList_toList]

theorem TypeRef.eq_of_endsName {c : Char} (h : endsName c = true) :
    c = '<' ∨ c = '>' ∨ c = ',' ∨ c = '[' := by
  simpa only [endsName, Bool.or_eq_true, beq_iff_eq, or_assoc] using h

theorem TypeRef.endsName_of_isWordChar {c : Char} (h : isWordChar c = true) :
    endsName c = false := by
  by_contra hends
  rcases eq_of_endsName (eq_true_of_ne_false hends) with rfl | rfl | rfl | rfl <;> revert h <;>
    decide +kernel

theorem TypeRef.parse_simpleName (h : isSimpleName s.toList = true) :
    TypeRef.parse s = .ok (.mk s [] 0) := by
  refine parse_name (isQualifiedName_of_isSimpleName h) (trimmed_of_isSimpleName h) ?_
  refine List.all_eq_true.2 fun c hc => ?_
  rw [Bool.not_eq_true']
  exact endsName_of_isWordChar (isWordChar_of_isSimpleName h c hc)

end JpaScaffold.Java
