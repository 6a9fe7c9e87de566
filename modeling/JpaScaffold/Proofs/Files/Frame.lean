import JpaScaffold.Files.Tree
import JpaScaffold.Proofs.Files.Names

/-!
# What changes in a tree

Steps create directories and no file, and what is created at a path changes nothing but what leads
there. Where a directory is removed no file is left, and no file elsewhere is changed.
-/
namespace JpaScaffold.Files.Tree

variable {p q : Path} {t t' : Tree} {names : List String} {es : List (String × Tree)}

theorem get?_append (t : Tree) (p q : Path) : t.get? (p ++ q) = (t.get? p).bind (·.get? q) := by
  induction p generalizing t with
  | nil => rfl
  | cons name rest ih =>
    cases t with
    | file text => rfl
    | directory entries =>
      rw [List.cons_append, get?, get?]
      cases entries.lookup name with
      | none => rfl
      | some sub => exact ih sub

theorem lookup_dropEntry_of_ne {name other : String} (h : other ≠ name)
    (entries : List (String × Tree)) :
    (dropEntry name entries).lookup other = entries.lookup other := by
  induction entries with
  | nil => rfl
  | cons e rest ih =>
    rw [dropEntry, List.filter_cons]
    by_cases he : e.1 = name
    · have hother : (other == e.1) = false := by simpa [he] using h
      rw [if_neg (by simp [he]), List.lookup_cons, hother]
      exact ih
    · rw [if_pos (by simp [he]), List.lookup_cons, List.lookup_cons, ← ih]
      rfl

/-! ## Steps -/

theorem file?_enter (p : Path) (t : Tree) (names : List String) (q : Path) :
    (t.enter p names).1.file? q = t.file? q := by
  induction names generalizing p t with
  | nil => rfl
  | cons name rest ih =>
    rw [enter]
    split
    · rfl
    · split
      · rfl
      · next sub hsub => rw [ih, file?_createDirectories hsub]

theorem get?_enter (h : t.enter p names = (t', true)) :
    ∃ es, t'.get? (names.foldl Path.follow p) = some (directory es) := by
  induction names generalizing p t with
  | nil =>
    obtain ⟨rfl, hdirectory⟩ := Prod.mk.inj h
    obtain ⟨node, hnode, hnode'⟩ := (Option.any_eq_true _ _).1 hdirectory
    cases node with
    | file text => cases hnode'
    | directory es => exact ⟨es, hnode⟩
  | cons name rest ih =>
    rw [enter] at h
    split at h
    · cases h
    · split at h
      · cases h
      · exact ih h

/-! ## On the way to a path, and elsewhere -/

theorem get?_chain_elsewhere (h : ¬q <+: p) : (chain p).get? q = none := by
  induction p generalizing q with
  | nil =>
    cases q with
    | nil => exact absurd List.nil_prefix h
    | cons => rfl
  | cons name rest ih =>
    cases q with
    | nil => exact absurd List.nil_prefix h
    | cons other more =>
      by_cases hne : other = name
      · subst hne
        have hmore : ¬more <+: rest := fun hp => h ((List.prefix_cons_inj other).2 hp)
        simpa [chain, get?] using ih hmore
      · have hother : (other == name) = false := by simpa using hne
        simp [chain, get?, List.lookup_cons, hother]

theorem exists_directory_above {node : Tree} (h : t.get? p = some node) (hq : q <+: p)
    (hne : q ≠ p) : ∃ es, t.get? q = some (directory es) := by
  obtain ⟨more, rfl⟩ := hq
  rw [get?_append] at h
  obtain ⟨found, hfound, hmore⟩ := Option.bind_eq_some_iff.1 h
  cases found with
  | directory es => exact ⟨es, hfound⟩
  | file text =>
    cases more with
    | nil => exact absurd (List.append_nil q).symm hne
    | cons name rest => cases hmore

theorem get?_createDirectories_elsewhere (hq : ¬q <+: p)
    (h : createDirectories p t = some t') : t'.get? q = t.get? q := by
  fun_induction createDirectories p t generalizing q t' with
  | case1 => cases h; rfl
  | case2 => cases h
  | case3 name rest entries hl =>
    cases h
    cases q with
    | nil => exact absurd List.nil_prefix hq
    | cons other more =>
      by_cases hne : other = name
      · subst hne
        have hmore : ¬more <+: rest := fun hp => hq ((List.prefix_cons_inj other).2 hp)
        simp [get?, hl, get?_chain_elsewhere hmore]
      · simp [get?, lookup_setEntry_of_ne hne]
  | case4 name rest entries sub hl ih =>
    obtain ⟨sub', hs, rfl⟩ := Option.map_eq_some_iff.1 h
    cases q with
    | nil => exact absurd List.nil_prefix hq
    | cons other more =>
      by_cases hne : other = name
      · subst hne
        have hmore : ¬more <+: rest := fun hp => hq ((List.prefix_cons_inj other).2 hp)
        simpa [get?, hl] using ih hmore hs
      · simp [get?, lookup_setEntry_of_ne hne]

theorem exists_createDirectories (h : ∀ d, d <+: p → ∀ text, t.get? d ≠ some (file text)) :
    ∃ t', createDirectories p t = some t' := by
  fun_induction createDirectories p t with
  | case1 entries => exact ⟨_, rfl⟩
  | case2 _ text => exact absurd rfl (h [] List.nil_prefix text)
  | case3 => exact ⟨_, rfl⟩
  | case4 name rest entries sub hl ih =>
    have hsub : ∀ d, d <+: rest → ∀ text, sub.get? d ≠ some (file text) := by
      intro d hd text hfile
      apply h (name :: d) ((List.prefix_cons_inj name).2 hd) text
      rw [get?, hl]
      exact hfile
    obtain ⟨sub', hsub'⟩ := ih hsub
    exact ⟨_, Option.map_eq_some_iff.2 ⟨sub', hsub', rfl⟩⟩

theorem get?_enter_elsewhere (hnames : ∀ name ∈ names, IsName name)
    (hq : ¬q <+: p ++ names) (t : Tree) : (t.enter p names).1.get? q = t.get? q := by
  induction names generalizing p t with
  | nil => rfl
  | cons name rest ih =>
    obtain ⟨hname, hrest⟩ := List.forall_mem_cons.1 hnames
    rw [List.append_cons] at hq
    rw [enter]
    split
    · rfl
    · rw [Path.follow_of_isName hname]
      split
      · rfl
      · next sub hsub =>
        have hfirst : ¬q <+: p ++ [name] := fun hp => hq (hp.trans (List.prefix_append _ rest))
        rw [ih hrest hq, get?_createDirectories_elsewhere hfirst hsub]

/-- Plain and short names can be entered if no file is in the way. -/
theorem exists_enter (hnames : ∀ name ∈ names, IsName name ∧ name.utf8ByteSize ≤ nameLimit)
    (hp : t.get? p = some (directory es))
    (h : ∀ d, d <+: p ++ names → ∀ text, t.get? d ≠ some (file text)) :
    ∃ t', t.enter p names = (t', true) := by
  induction names generalizing p t es with
  | nil =>
    refine ⟨t, ?_⟩
    rw [enter, hp]
    rfl
  | cons name rest ih =>
    obtain ⟨⟨hname, hshort⟩, hrest⟩ := List.forall_mem_cons.1 hnames
    rw [List.append_cons] at h
    obtain ⟨sub, hsub⟩ := exists_createDirectories (p := p ++ [name])
      (fun d hd => h d (hd.trans (List.prefix_append _ rest)))
    obtain ⟨es', hes'⟩ := get?_createDirectories hsub
    have hfree : ∀ d, d <+: p ++ [name] ++ rest → ∀ text, sub.get? d ≠ some (file text) := by
      intro d hd text hfile
      by_cases hfirst : d <+: p ++ [name]
      · by_cases hne : d = p ++ [name]
        · rw [hne, hes'] at hfile
          cases hfile
        · obtain ⟨es'', hes''⟩ := exists_directory_above hes' hfirst hne
          rw [hes''] at hfile
          cases hfile
      · rw [get?_createDirectories_elsewhere hfirst hsub] at hfile
        exact h d hd text hfile
    obtain ⟨t', ht'⟩ := ih hrest hes' hfree
    refine ⟨t', ?_⟩
    rw [enter, if_neg (Nat.not_lt.2 hshort), Path.follow_of_isName hname, hsub]
    exact ht'

theorem get?_write_elsewhere {text : String} (hq : ¬q <+: p) (h : t.write text p = some t') :
    t'.get? q = t.get? q := by
  fun_induction write text p t generalizing q t' with
  | case1 => cases h
  | case2 => cases h
  | case3 name entries =>
    obtain ⟨es, he, rfl⟩ := Option.map_eq_some_iff.1 h
    unfold writeEntry at he
    split at he
    · cases he
    · next hfree =>
      cases he
      cases q with
      | nil => exact absurd List.nil_prefix hq
      | cons other more =>
        by_cases hne : other = name
        · subst hne
          cases more with
          | nil => exact absurd List.prefix_rfl hq
          | cons next rest =>
            -- nothing lies below a file, and no directory was in its place
            cases hl : entries.lookup other with
            | none => simp [get?, hl]
            | some sub =>
              cases sub with
              | file => simp [get?, hl]
              | directory es => simp [hl, isDirectory] at hfree
        · simp [get?, lookup_setEntry_of_ne hne]
  | case4 name next rest entries ih =>
    obtain ⟨sub, hl, hw⟩ := Option.bind_eq_some_iff.1 h
    obtain ⟨sub', hs, rfl⟩ := Option.map_eq_some_iff.1 hw
    cases q with
    | nil => exact absurd List.nil_prefix hq
    | cons other more =>
      by_cases hne : other = name
      · subst hne
        have hmore : ¬more <+: next :: rest := fun hp => hq ((List.prefix_cons_inj other).2 hp)
        simpa [get?, hl] using ih sub hmore hs
      · simp [get?, lookup_setEntry_of_ne hne]

/-- A file of a short name can be written into a directory, but not over a directory. -/
theorem exists_write {name : String} (text : String) (hp : t.get? p = some (directory es))
    (hshort : name.utf8ByteSize ≤ nameLimit)
    (hfree : ∀ es, t.get? (p ++ [name]) ≠ some (directory es)) :
    ∃ t', t.write text (p ++ [name]) = some t' := by
  -- the entry is made in the last directory and put back into each one above it
  induction p generalizing t with
  | nil =>
    cases hp
    have hentry : (es.lookup name).any isDirectory = false := by
      cases hl : es.lookup name with
      | none => rfl
      | some sub =>
        cases sub with
        | file => rfl
        | directory es' => exact absurd (by simp [get?, hl]) (hfree es')
    rw [List.nil_append, write, writeEntry, hentry, Bool.or_false,
      if_neg (by simpa using hshort)]
    exact ⟨_, rfl⟩
  | cons first rest ih =>
    cases t with
    | file => cases hp
    | directory entries =>
      rw [get?] at hp
      obtain ⟨sub, hl, hsub⟩ := Option.bind_eq_some_iff.1 hp
      have hfree' : ∀ es, sub.get? (rest ++ [name]) ≠ some (directory es) := by
        intro es' hes'
        apply hfree es'
        rw [List.cons_append, get?, hl]
        exact hes'
      obtain ⟨sub', hsub'⟩ := ih hsub hfree'
      obtain ⟨next, more, hrest⟩ := List.exists_cons_of_ne_nil (l := rest ++ [name]) (by simp)
      rw [hrest] at hsub'
      refine ⟨directory (setEntry first sub' entries), ?_⟩
      rw [List.cons_append, hrest, write, hl, Option.bind_some, hsub']
      rfl

/-! ## Removing -/

theorem file?_remove_elsewhere (h : ¬p <+: q) : (remove p t).file? q = t.file? q := by
  fun_induction remove p t generalizing q with
  | case1 => rfl
  | case2 => exact absurd List.nil_prefix h
  | case3 name entries =>
    cases q with
    | nil => rfl
    | cons other more =>
      have hne : other ≠ name := by
        rintro rfl
        exact h (List.prefix_cons_inj other |>.2 List.nil_prefix)
      simp [file?, get?, lookup_dropEntry_of_ne hne]
  | case4 => rfl
  | case5 name next rest entries sub hl ih =>
    cases q with
    | nil => rfl
    | cons other more =>
      by_cases hne : other = name
      · subst hne
        have hbelow : ¬next :: rest <+: more := fun hp => h ((List.prefix_cons_inj other).2 hp)
        have hsub := ih hbelow
        simpa [file?, get?, hl] using hsub
      · simp [file?, get?, lookup_setEntry_of_ne hne]

theorem file?_remove_below (h : t.get? p = some (directory es)) (q : Path) :
    (remove p t).file? (p ++ q) = none := by
  cases p with
  | nil =>
    cases h
    cases q with
    | nil => simp [remove, file?, get?, empty]
    | cons => simp [remove, file?, get?, empty]
  | cons name rest =>
    rw [file?, get?_append, get?_remove_self (List.cons_ne_nil _ _)]
    rfl

end JpaScaffold.Files.Tree
