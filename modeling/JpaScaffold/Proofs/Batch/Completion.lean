import JpaScaffold.Proofs.Batch.Tally

/-!
# Formatting in any order

The units of a table are formatted in an order that nothing fixes. Their files are there from the
start, and each is filled at the place of its unit, so the order does not show in them.
-/
namespace JpaScaffold.GeneratedFile

open Java (CompilationUnit)

variable {format : Formatter} {units : List CompilationUnit} {files files' : List GeneratedFile}
  {done order : List Nat} {i : Nat} {c : Config} {t : Table}

theorem formatted_eq_ok {u : CompilationUnit} {f : GeneratedFile} :
    formatted format u = .ok f ↔
      f.package = u.package ∧ f.typeName = u.typeName ∧ format u.text = .ok f.contents := by
  rw [formatted, map_eq_ok]
  constructor
  · rintro ⟨text, htext, rfl⟩
    exact ⟨rfl, rfl, htext⟩
  · rintro ⟨hpackage, htypeName, htext⟩
    refine ⟨f.contents, htext, ?_⟩
    rw [← hpackage, ← htypeName]

/-! ## One completion after another -/

/-- A file of a unit. It has the text of the unit once this is `formatted`. -/
structure FilledFrom (format : Formatter) (u : CompilationUnit) (isFormatted : Prop)
    (f : GeneratedFile) : Prop where
  package_eq : f.package = u.package
  typeName_eq : f.typeName = u.typeName
  text_of_formatted : isFormatted → format u.text = .ok f.contents

/-- Each file stands at the place of its unit, and the units at the places in `done` are formatted.
-/
structure Filled (format : Formatter) (units : List CompilationUnit) (done : List Nat)
    (files : List GeneratedFile) : Prop where
  length_eq : files.length = units.length
  filledFrom : ∀ i f, files[i]? = some f →
    ∃ u, units[i]? = some u ∧ FilledFrom format u (i ∈ done) f

theorem filled_nil (format : Formatter) (units : List CompilationUnit) :
    Filled format units [] (units.map ofUnit) where
  length_eq := List.length_map _
  filledFrom i f hf := by
    rw [List.getElem?_map] at hf
    obtain ⟨u, hu, rfl⟩ := Option.map_eq_some_iff.1 hf
    exact ⟨u, hu, rfl, rfl, fun h => absurd h List.not_mem_nil⟩

theorem FilledFrom.of_ne {u : CompilationUnit} {f : GeneratedFile} {j : Nat} (hne : j ≠ i)
    (h : FilledFrom format u (j ∈ done) f) : FilledFrom format u (j ∈ i :: done) f where
  package_eq := h.package_eq
  typeName_eq := h.typeName_eq
  text_of_formatted hj := h.text_of_formatted ((List.mem_cons.1 hj).resolve_left hne)

/-- One more unit is formatted. -/
theorem Filled.fill (hfilled : Filled format units done files)
    (h : fill format units files i = .ok files') : Filled format units (i :: done) files' := by
  unfold GeneratedFile.fill at h
  split at h
  · next hi =>
    cases h
    refine ⟨hfilled.length_eq, fun j f hf => ?_⟩
    obtain ⟨u, hu, hfile⟩ := hfilled.filledFrom j f hf
    have hne : j ≠ i := by
      rintro rfl
      rw [hi] at hu
      cases hu
    exact ⟨u, hu, hfile.of_ne hne⟩
  · next u hu =>
    obtain ⟨text, htext, rfl⟩ := map_eq_ok.1 h
    refine ⟨by rw [List.length_modify, hfilled.length_eq], fun j f hf => ?_⟩
    rw [List.getElem?_modify] at hf
    obtain ⟨g, hg, rfl⟩ := Option.map_eq_some_iff.1 hf
    obtain ⟨u', hu', hfile⟩ := hfilled.filledFrom j g hg
    refine ⟨u', hu', ?_⟩
    by_cases hij : i = j
    · subst hij
      rw [hu] at hu'
      cases hu'
      rw [if_pos rfl]
      exact ⟨hfile.package_eq, hfile.typeName_eq, fun _ => htext⟩
    · rw [if_neg hij]
      exact hfile.of_ne (Ne.symm hij)

theorem Filled.run (hfilled : Filled format units done files)
    (h : order.foldlM (GeneratedFile.fill format units) files = .ok files') :
    Filled format units (order.reverse ++ done) files' := by
  induction order generalizing files done with
  | nil =>
    cases h
    exact hfilled
  | cons i rest ih =>
    rw [List.foldlM_cons] at h
    obtain ⟨filled, hfirst, hrest⟩ := bind_eq_ok.1 h
    have hend := ih (hfilled.fill hfirst) hrest
    rw [List.reverse_cons, List.append_assoc]
    exact hend

theorem fill_eq_error {e : FormatError} (h : fill format units files i = .error e) :
    ∃ u ∈ units, format u.text = .error e := by
  unfold fill at h
  split at h
  · cases h
  · next u hu =>
    refine ⟨u, List.mem_of_getElem? hu, ?_⟩
    cases hformat : format u.text with
    | ok text =>
      rw [hformat] at h
      cases h
    | error e' =>
      rw [hformat] at h
      cases h
      rfl

theorem run_eq_error {e : FormatError}
    (h : order.foldlM (fill format units) files = .error e) :
    ∃ u ∈ units, format u.text = .error e := by
  induction order generalizing files with
  | nil => cases h
  | cons i rest ih =>
    rw [List.foldlM_cons] at h
    cases hfirst : fill format units files i with
    | error e' =>
      rw [hfirst] at h
      cases h
      exact fill_eq_error hfirst
    | ok filled =>
      rw [hfirst, ok_bind] at h
      exact ih h

/-! ## All units -/

theorem forall₂_of_ofUnits (horder : order.Perm (List.range units.length))
    (h : ofUnits format units order = .ok files) :
    List.Forall₂ (fun u f => formatted format u = .ok f) units files := by
  have hfilled := (filled_nil format units).run h
  rw [List.forall₂_iff_get]
  refine ⟨hfilled.length_eq.symm, fun i hi hf => ?_⟩
  obtain ⟨u, hu, hfile⟩ := hfilled.filledFrom i _ (List.getElem?_eq_getElem hf)
  rw [List.getElem?_eq_getElem hi] at hu
  cases hu
  have hdone : i ∈ order.reverse ++ [] := by
    rw [List.append_nil, List.mem_reverse, horder.mem_iff, List.mem_range]
    exact hi
  exact formatted_eq_ok.2 ⟨hfile.package_eq, hfile.typeName_eq, hfile.text_of_formatted hdone⟩

theorem ofUnits_returns_iff (horder : order.Perm (List.range units.length)) :
    (∃ files, ofUnits format units order = .ok files) ↔
      ∀ u ∈ units, ∃ text, format u.text = .ok text := by
  constructor
  · rintro ⟨files, h⟩ u hu
    obtain ⟨i, hi, rfl⟩ := List.getElem_of_mem hu
    obtain ⟨hlength, hfiles⟩ := List.forall₂_iff_get.1 (forall₂_of_ofUnits horder h)
    obtain ⟨-, -, htext⟩ := formatted_eq_ok.1 (hfiles i hi (hlength ▸ hi))
    exact ⟨_, htext⟩
  · intro h
    cases hmade : ofUnits format units order with
    | ok files => exact ⟨files, rfl⟩
    | error e =>
      obtain ⟨u, hu, hfailure⟩ := run_eq_error hmade
      obtain ⟨text, htext⟩ := h u hu
      rw [hfailure] at htext
      cases htext

theorem ofUnits_eq_ok_iff {order' : List Nat} (horder : order.Perm (List.range units.length))
    (horder' : order'.Perm (List.range units.length)) :
    ofUnits format units order = .ok files ↔ ofUnits format units order' = .ok files := by
  have himp : ∀ {first second : List Nat}, first.Perm (List.range units.length) →
      second.Perm (List.range units.length) → ofUnits format units first = .ok files →
      ofUnits format units second = .ok files := by
    intro first second hfirst hsecond h
    obtain ⟨made, hmade⟩ := (ofUnits_returns_iff hsecond).2 ((ofUnits_returns_iff hfirst).1 ⟨_, h⟩)
    have hfiles := mapM_eq_ok.2 (forall₂_of_ofUnits hfirst h)
    rw [mapM_eq_ok.2 (forall₂_of_ofUnits hsecond hmade)] at hfiles
    rw [hmade, hfiles]
  exact ⟨himp horder horder', himp horder' horder⟩

theorem ofTable_of_units {us : Units.TableUnits}
    (hunits : Units.units (.ofTable c t) (.ofConfig c) = .ok us) :
    ofTable c format t =
      (ofUnits format us.toList (List.range us.toList.length)).mapError .format := by
  rw [ofTable, hunits]
  rfl

/-- Whether there are files, and which, does not depend on the order in which the units of a table
are formatted. -/
theorem ofUnits_in_any_order (format : Formatter) (units : List CompilationUnit)
    (horder : order.Perm (List.range units.length)) :
    ((∃ files, ofUnits format units order = .ok files) ↔
        ∀ u ∈ units, ∃ text, format u.text = .ok text) ∧
      (∀ files, ofUnits format units order = .ok files →
        List.Forall₂ (fun u f => f.package = u.package ∧ f.typeName = u.typeName ∧
          format u.text = .ok f.contents) units files) ∧
      (∀ e, ofUnits format units order = .error e → ∃ u ∈ units, format u.text = .error e) ∧
      ∀ c t us, Units.units (.ofTable c t) (.ofConfig c) = .ok us → us.toList = units →
        (∀ files, ofTable c format t = .ok files ↔ ofUnits format units order = .ok files) ∧
        ∀ e, ofTable c format t = .error e →
          ∃ u ∈ units, ∃ e', format u.text = .error e' ∧ e = .format e' := by
  refine ⟨ofUnits_returns_iff horder, fun files h => ?_, fun e h => run_eq_error h, ?_⟩
  · exact (forall₂_of_ofUnits horder h).imp fun u f hfile => formatted_eq_ok.1 hfile
  · rintro c t us hunits rfl
    rw [ofTable_of_units hunits]
    constructor
    · intro files
      rw [mapError_eq_ok, ofUnits_eq_ok_iff (List.Perm.refl _) horder]
    · intro e h
      obtain ⟨e', he', rfl⟩ := mapError_eq_error.1 h
      obtain ⟨u, hu, hfailure⟩ := run_eq_error he'
      exact ⟨u, hu, e', hfailure, rfl⟩

theorem ofUnits_in_any_order_of_tints :
    ∃ us, Units.units
        (.ofTable Config.default (Table.ofCreateTable Config.default false Batch.tintTable))
        (.ofConfig Config.default) = .ok us ∧
      [2, 0, 1].Perm (List.range us.toList.length) ∧
      ∃ files, ofUnits (fun source => .ok source) us.toList [2, 0, 1] = .ok files := by
  obtain ⟨us, hunits⟩ := Batch.plain_tints.exists_units
  have hlength : us.toList.length = 3 := by
    rw [← List.length_map fun u => (u.package, u.typeName), Units.places_of_unitsUnder hunits]
    decide +kernel
  have horder : [2, 0, 1].Perm (List.range us.toList.length) := by
    rw [hlength]
    decide
  have hreturns := (ofUnits_in_any_order (fun source => .ok source) us.toList horder).1
  exact ⟨us, hunits, horder, hreturns.2 fun u _ => ⟨u.text, rfl⟩⟩

end JpaScaffold.GeneratedFile
