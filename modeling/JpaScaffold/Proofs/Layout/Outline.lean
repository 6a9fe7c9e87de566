import JpaScaffold.Proofs.Layout.Preservation

/-!
# Where imports are placed

The outline of a source is the list of its steps with each import statement as one item. A layout
rearranges it: imports wait until a step is written that may not stand before them. Here is what
such an arrangement keeps, whatever the steps are: the order of the steps, the imports, and the
place of the imports in front of the types unless a type is placed while imports wait.
-/
namespace JpaScaffold.Java.Layout

/-! ## Items -/

/-- A block opens at this step, behind the statement read so far. -/
def Visit.opensBlock (v : Visit) : Bool :=
  v.state.nesting.isEmpty && !v.state.assigned &&
    match v.taken with
    | t :: _ => t.isPunct ['{']
    | [] => false

/-- The body of a type opens at this step. -/
def Visit.declaresType (v : Visit) : Bool :=
  v.opensBlock && blockKind v.state.pending != .code

/-- The step reads a token of a statement of the file that begins as an import does. -/
def Visit.readsImport (v : Visit) : Bool :=
  v.state.scope.kind == .file && startsImport (v.state.pending ++ v.taken) && !v.opensBlock

/-- The line of the import statement that ends at this step. -/
def Visit.importLine (v : Visit) : List Char := joinTokens (v.state.pending ++ v.taken)

deriving instance DecidableEq for Visit

/-- An item of a file: a step, or an import statement with the line it stands on. -/
inductive Item where
  | step (v : Visit)
  | imported (line : List Char)
  deriving DecidableEq

namespace Item

def step? : Item → Option Visit
  | step v => some v
  | imported _ => none

def imported? : Item → Option (List Char)
  | step _ => none
  | imported line => some line

def declaresType : Item → Bool
  | step v => v.declaresType
  | imported _ => false

/-- The code of an item: what its tokens say, without comments. -/
def code : Item → List Content
  | step v => codeOf (v.taken.map Token.content)
  | imported line => codeOf ((contents line).getD [])

end Item

def stepsOf (items : List Item) : List Visit := items.filterMap Item.step?

/-- The lines of the imports. -/
def importsOf (items : List Item) : List (List Char) := items.filterMap Item.imported?

/-- All imports come before the first type. -/
def ImportsFirst (items : List Item) : Prop :=
  items.Pairwise fun a b => a.declaresType = true → b.imported? = none

/-- The items of some steps. The steps `held` have read the beginning of an import statement. -/
def outlineFrom (held : List Visit) : List Visit → List Item
  | [] => held.map .step
  | v :: vs =>
    if v.endsImport then .imported v.importLine :: outlineFrom [] vs
    else if v.readsImport then outlineFrom (held ++ [v]) vs
    else held.map .step ++ .step v :: outlineFrom [] vs

/-- The items of a source. -/
def outline (o : Options) (ts : List Token) : List Item := outlineFrom [] (visits o {} none ts)

section Lists

variable {items items' : List Item} {vs : List Visit} {lines : List (List Char)} {line : List Char}

@[simp] theorem stepsOf_append (items items' : List Item) :
    stepsOf (items ++ items') = stepsOf items ++ stepsOf items' := List.filterMap_append

@[simp] theorem importsOf_append (items items' : List Item) :
    importsOf (items ++ items') = importsOf items ++ importsOf items' := List.filterMap_append

@[simp] theorem stepsOf_steps (vs : List Visit) : stepsOf (vs.map .step) = vs := by
  simp [stepsOf, List.filterMap_map, Function.comp_def, Item.step?]

@[simp] theorem importsOf_steps (vs : List Visit) : importsOf (vs.map .step) = [] := by
  simp [importsOf, List.filterMap_map, Function.comp_def, Item.imported?]

@[simp] theorem stepsOf_imported (lines : List (List Char)) :
    stepsOf (lines.map .imported) = [] := by
  simp [stepsOf, List.filterMap_map, Function.comp_def, Item.step?]

@[simp] theorem importsOf_imported (lines : List (List Char)) :
    importsOf (lines.map .imported) = lines := by
  simp [importsOf, List.filterMap_map, Function.comp_def, Item.imported?]

@[simp] theorem importsOf_cons_imported (line : List Char) (items : List Item) :
    importsOf (.imported line :: items) = line :: importsOf items := rfl

theorem importsOf_eq_nil : importsOf items = [] ↔ ∀ a ∈ items, a.imported? = none :=
  List.filterMap_eq_nil_iff

/-- Some type is declared among the items. -/
def Declares (items : List Item) : Prop := ∃ a ∈ items, a.declaresType = true

@[simp] theorem declares_append : Declares (items ++ items') ↔ Declares items ∨ Declares items' := by
  simp only [Declares, List.mem_append, or_and_right, exists_or]

@[simp] theorem not_declares_imported (lines : List (List Char)) :
    ¬ Declares (lines.map .imported) := by
  rintro ⟨a, ha, hd⟩
  obtain ⟨line, -, rfl⟩ := List.mem_map.1 ha
  cases hd

@[simp] theorem declares_steps : Declares (vs.map .step) ↔ ∃ v ∈ vs, v.declaresType = true := by
  simp [Declares, Item.declaresType]

theorem importsFirst_append : ImportsFirst (items ++ items') ↔
    ImportsFirst items ∧ ImportsFirst items' ∧ (Declares items → importsOf items' = []) := by
  rw [ImportsFirst, List.pairwise_append, importsOf_eq_nil]
  refine and_congr_right fun _ => and_congr_right fun _ => ?_
  constructor
  · rintro h ⟨a, ha, hd⟩ b hb
    exact h a ha b hb hd
  · intro h a ha b hb hd
    exact h ⟨a, ha, hd⟩ b hb

@[simp] theorem importsFirst_steps (vs : List Visit) : ImportsFirst (vs.map .step) :=
  List.pairwise_iff_forall_sublist.2 fun {a b} h _ => by
    obtain ⟨v, -, rfl⟩ := List.mem_map.1 (h.subset (a := b) (by simp))
    rfl

@[simp] theorem importsFirst_imported (lines : List (List Char)) :
    ImportsFirst (lines.map .imported) :=
  List.pairwise_iff_forall_sublist.2 fun {a b} h hd => by
    obtain ⟨line, -, rfl⟩ := List.mem_map.1 (h.subset (a := a) (by simp))
    cases hd

end Lists

/-! ## Lines with comments behind them -/

/-- The line `line'` is the line `line`, with comments behind it or without. -/
def Commented (line line' : List Char) : Prop :=
  ∃ tail, line' = line ++ tail ∧ (tail = [] ∨ ∃ more, tail = ' ' :: '/' :: '/' :: more)

theorem Commented.refl (line : List Char) : Commented line line :=
  ⟨[], (List.append_nil line).symm, .inl rfl⟩

theorem Commented.trans {a b c : List Char} (hab : Commented a b) (hbc : Commented b c) :
    Commented a c := by
  obtain ⟨tail, rfl, htail⟩ := hab
  obtain ⟨tail', rfl, htail'⟩ := hbc
  refine ⟨tail ++ tail', List.append_assoc .., ?_⟩
  rcases htail with rfl | ⟨more, rfl⟩
  · exact htail'
  · exact .inr ⟨more ++ tail', rfl⟩

theorem appendToLast_concat (text : List Char) (lines : List (List Char)) (line : List Char) :
    appendToLast text (lines ++ [line]) = lines ++ [line ++ text] := by
  induction lines with
  | nil => rfl
  | cons first lines ih =>
    cases lines with
    | nil => rfl
    | cons second lines =>
      rw [List.cons_append, List.cons_append, appendToLast, ← List.cons_append, ih]
      · rfl
      · simp

@[simp] theorem appendToLast_nil (lines : List (List Char)) : appendToLast [] lines = lines := by
  cases lines using List.reverseRecOn with
  | nil => rfl
  | append_singleton lines line => rw [appendToLast_concat, List.append_nil]

theorem appendToLast_appendToLast (a b : List Char) (lines : List (List Char)) :
    appendToLast b (appendToLast a lines) = appendToLast (a ++ b) lines := by
  cases lines using List.reverseRecOn with
  | nil => rfl
  | append_singleton lines line => simp only [appendToLast_concat, List.append_assoc]

@[simp] theorem appendToLast_eq_nil {text : List Char} {lines : List (List Char)} :
    appendToLast text lines = [] ↔ lines = [] := by
  cases lines using List.reverseRecOn with
  | nil => exact Iff.rfl
  | append_singleton lines line => simp [appendToLast_concat]

/-! ## Arrangements -/

/-- How the items to come are placed behind the items placed already, while imports wait. The
arrangement is `late` if a type is placed in front of imports that wait; `trails` holds if a comment
may be put behind an import. -/
inductive Arranges (trails : Prop) :
    List Item → List (List Char) → List Item → List Item → Bool → Prop
  | done (placed : List Item) (waiting : List (List Char)) :
      Arranges trails placed waiting [] (placed ++ (sortedImports waiting).map .imported) false
  | wait {placed items result : List Item} {waiting : List (List Char)} {late : Bool}
      (line : List Char) (h : Arranges trails placed (waiting ++ [line]) items result late) :
      Arranges trails placed waiting (.imported line :: items) result late
  | comment {placed items result : List Item} {waiting : List (List Char)} {late : Bool} {v : Visit}
      {text : List Char} (ht : trails) (hc : ∃ more, text = ' ' :: '/' :: '/' :: more)
      (h : Arranges trails placed (appendToLast text waiting) (.step v :: items) result late) :
      Arranges trails placed waiting (.step v :: items) result late
  | write {placed items result : List Item} {waiting : List (List Char)} {late : Bool}
      (vs : List Visit) (h : Arranges trails (placed ++ vs.map .step) waiting items result late) :
      Arranges trails placed waiting (vs.map .step ++ items) result
        (late || (vs.any Visit.declaresType && !waiting.isEmpty))
  | flush {placed items result : List Item} {waiting : List (List Char)} {late : Bool}
      {vs : List Visit} (hne : vs ≠ [])
      (h : Arranges trails (placed ++ (sortedImports waiting).map .imported ++ vs.map .step) [] items
        result late) :
      Arranges trails placed waiting (vs.map .step ++ items) result late

namespace Arranges

variable {trails : Prop} {placed items result : List Item} {waiting : List (List Char)} {late : Bool}

theorem stepsOf_eq (h : Arranges trails placed waiting items result late) :
    stepsOf result = stepsOf placed ++ stepsOf items := by
  induction h with
  | done => rw [stepsOf_append, stepsOf_imported]; rfl
  | wait _ _ ih => exact ih
  | comment _ _ _ ih => exact ih
  | write _ _ ih => simpa using ih
  | flush _ _ ih => simpa using ih

theorem importsOf_placed (h : Arranges trails placed waiting items result late) {line : List Char}
    (hl : line ∈ importsOf placed) : line ∈ importsOf result := by
  induction h with
  | done => simp [hl]
  | wait _ _ ih => exact ih hl
  | comment _ _ _ ih => exact ih hl
  | write _ _ ih => exact ih (by simpa using hl)
  | flush _ _ ih => exact ih (by simp [hl])

theorem exists_commented_appendToLast {text line : List Char}
    (hc : ∃ more, text = ' ' :: '/' :: '/' :: more) (hl : line ∈ waiting) :
    ∃ line' ∈ appendToLast text waiting, Commented line line' := by
  cases waiting using List.reverseRecOn with
  | nil => cases hl
  | append_singleton lines last =>
    rw [appendToLast_concat]
    rcases List.mem_append.1 hl with hl | hl
    · exact ⟨line, by simp [hl], .refl line⟩
    · obtain rfl := List.mem_singleton.1 hl
      exact ⟨line ++ text, by simp, text, rfl, .inr hc⟩

theorem exists_of_mem_appendToLast {text line : List Char}
    (hc : ∃ more, text = ' ' :: '/' :: '/' :: more) (hl : line ∈ appendToLast text waiting) :
    ∃ line' ∈ waiting, Commented line' line := by
  cases waiting using List.reverseRecOn with
  | nil => cases hl
  | append_singleton lines last =>
    rw [appendToLast_concat] at hl
    rcases List.mem_append.1 hl with hl | hl
    · exact ⟨line, by simp [hl], .refl line⟩
    · obtain rfl := List.mem_singleton.1 hl
      exact ⟨last, by simp, text, rfl, .inr hc⟩

/-- No import is lost: each stands in the result, with comments behind it or without. -/
theorem exists_imported (h : Arranges trails placed waiting items result late) {line : List Char}
    (hl : line ∈ waiting ∨ line ∈ importsOf items) :
    ∃ line' ∈ importsOf result, Commented line line' := by
  induction h generalizing line with
  | done =>
    obtain hl | hl := hl
    · exact ⟨line, by simp [mem_sortedImports, hl], .refl line⟩
    · cases hl
  | wait _ _ ih =>
    refine ih ?_
    rcases hl with hl | hl
    · exact .inl (by simp [hl])
    · rcases List.mem_cons.1 hl with rfl | hl
      · exact .inl (by simp)
      · exact .inr hl
  | comment _ hc _ ih =>
    rcases hl with hl | hl
    · obtain ⟨line', hl', hcom⟩ := exists_commented_appendToLast hc hl
      obtain ⟨line'', hl'', hcom'⟩ := ih (.inl hl')
      exact ⟨line'', hl'', hcom.trans hcom'⟩
    · exact ih (.inr hl)
  | write _ _ ih => exact ih (by simpa using hl)
  | flush _ h ih =>
    rcases hl with hl | hl
    · exact ⟨line, h.importsOf_placed (by simp [mem_sortedImports, hl]), .refl line⟩
    · exact ih (.inr (by simpa using hl))

/-- No import is made up. -/
theorem exists_of_imported (h : Arranges trails placed waiting items result late) {line : List Char}
    (hl : line ∈ importsOf result) : line ∈ importsOf placed ∨
      ∃ line', (line' ∈ waiting ∨ line' ∈ importsOf items) ∧ Commented line' line := by
  induction h with
  | done =>
    rcases List.mem_append.1 (importsOf_append _ _ ▸ hl) with hl | hl
    · exact .inl hl
    · rw [importsOf_imported, mem_sortedImports] at hl
      exact .inr ⟨line, .inl hl, .refl line⟩
  | wait _ _ ih =>
    refine (ih hl).imp id ?_
    rintro ⟨line', hl', hc⟩
    refine ⟨line', ?_, hc⟩
    simpa [or_assoc] using hl'
  | comment _ ht _ ih =>
    refine (ih hl).imp id ?_
    rintro ⟨line', hl' | hl', hc⟩
    · obtain ⟨line'', hl'', hc'⟩ := exists_of_mem_appendToLast ht hl'
      exact ⟨line'', .inl hl'', hc'.trans hc⟩
    · exact ⟨line', .inr hl', hc⟩
  | write _ _ ih => simpa using ih hl
  | flush _ _ ih =>
    rcases ih hl with hl | ⟨line', hl', hc⟩
    · simp only [importsOf_append, importsOf_imported, importsOf_steps, List.append_nil,
        List.mem_append, mem_sortedImports] at hl
      exact hl.imp id fun hl => ⟨line, .inl hl, .refl line⟩
    · exact .inr ⟨line', .inr (by simpa using hl'), hc⟩

/-- If the imports come before the types among the items, they do so in the result, unless a type is
placed while imports wait. -/
theorem importsFirst_iff (h : Arranges trails placed waiting items result late)
    (hitems : ImportsFirst items) (hplaced : Declares placed → importsOf items = []) :
    ImportsFirst result ↔
      ImportsFirst placed ∧ (Declares placed → waiting = []) ∧ late = false := by
  have hsorted (lines : List (List Char)) : sortedImports lines = [] ↔ lines = [] :=
    ⟨fun hs => by_contra fun hne => sortedImports_ne_nil hne hs, fun hn => by rw [hn, sortedImports_nil]⟩
  induction h with
  | done => simp [importsFirst_append, hsorted]
  | @wait placed items _ _ _ line _ ih =>
    have hn : ¬ Declares placed := fun hd => List.cons_ne_nil _ _ (hplaced hd)
    refine (ih (List.pairwise_cons.1 hitems).2 fun hd => absurd hd hn).trans ?_
    simp [hn]
  | comment _ _ _ ih =>
    refine (ih hitems hplaced).trans ?_
    simp
  | @write placed items _ waiting late vs _ ih =>
    obtain ⟨-, hrest, hsteps⟩ := importsFirst_append.1 hitems
    have hbehind : Declares (placed ++ vs.map .step) → importsOf items = [] := by
      rw [declares_append, or_imp]
      exact ⟨fun hd => by simpa using hplaced hd, hsteps⟩
    refine (ih hrest hbehind).trans ?_
    have hlate : (late || (vs.any Visit.declaresType && !waiting.isEmpty)) = false ↔
        late = false ∧ (Declares (vs.map .step) → waiting = []) := by
      simp [declares_steps]
    rw [hlate, declares_append, or_imp, importsFirst_append]
    simp only [importsFirst_steps, importsOf_steps, implies_true, and_true]
    tauto
  | @flush placed items _ waiting _ vs _ _ ih =>
    obtain ⟨-, hrest, hsteps⟩ := importsFirst_append.1 hitems
    have hbehind : Declares (placed ++ (sortedImports waiting).map .imported ++ vs.map .step) →
        importsOf items = [] := by
      rw [declares_append, declares_append, or_imp, or_imp]
      exact ⟨⟨fun hd => by simpa using hplaced hd, fun hd => absurd hd (not_declares_imported _)⟩,
        hsteps⟩
    refine (ih hrest hbehind).trans ?_
    simp [importsFirst_append, hsorted, and_assoc]

theorem behind_no_imports (items : List Item) :
    items = ([] : List (List Char)).map .imported ++ items := rfl

/-- Imports that follow each other are placed together, in order and each once. -/
theorem importsOf_together (h : Arranges trails placed waiting items result late)
    {lines : List (List Char)} {after : List Item} (hitems : items = lines.map .imported ++ after)
    (hafter : importsOf after = []) :
    ∃ tail, importsOf result =
        importsOf placed ++ sortedImports (appendToLast tail (waiting ++ lines)) ∧
      (tail = [] ∨ trails ∧ ∃ more, tail = ' ' :: '/' :: '/' :: more) := by
  -- imports join those that wait one after another, until they are written out together
  induction h generalizing lines after with
  | done =>
    obtain ⟨hlines, -⟩ := List.append_eq_nil_iff.1 hitems.symm
    obtain rfl := List.map_eq_nil_iff.1 hlines
    exact ⟨[], by simp, .inl rfl⟩
  | wait line _ ih =>
    cases lines with
    | nil =>
      rw [List.map_nil, List.nil_append] at hitems
      rw [← hitems] at hafter
      cases hafter
    | cons first lines =>
      rw [List.map_cons, List.cons_append, List.cons.injEq] at hitems
      obtain ⟨hfirst, rfl⟩ := hitems
      obtain rfl : line = first := Item.imported.inj hfirst
      obtain ⟨tail, hresult, htail⟩ := ih rfl hafter
      exact ⟨tail, by simpa using hresult, htail⟩
  | comment ht hc _ ih =>
    cases lines with
    | cons => cases hitems
    | nil =>
      obtain ⟨tail, hresult, htail⟩ := ih hitems hafter
      obtain ⟨more, rfl⟩ := hc
      refine ⟨' ' :: '/' :: '/' :: more ++ tail, ?_, .inr ⟨ht, more ++ tail, rfl⟩⟩
      simpa [appendToLast_appendToLast] using hresult
  | write vs _ ih =>
    cases lines with
    | cons first lines =>
      cases vs with
      | nil =>
        obtain ⟨tail, hresult, htail⟩ := ih hitems hafter
        exact ⟨tail, by simpa using hresult, htail⟩
      | cons => cases hitems
    | nil =>
      rw [List.map_nil, List.nil_append] at hitems
      rw [← hitems, importsOf_append, importsOf_steps, List.nil_append] at hafter
      obtain ⟨tail, hresult, htail⟩ := ih (behind_no_imports _) hafter
      exact ⟨tail, by simpa using hresult, htail⟩
  | @flush _ _ _ _ _ vs hne _ ih =>
    cases lines with
    | cons first lines =>
      cases vs with
      | nil => exact absurd rfl hne
      | cons => cases hitems
    | nil =>
      rw [List.map_nil, List.nil_append] at hitems
      rw [← hitems, importsOf_append, importsOf_steps, List.nil_append] at hafter
      obtain ⟨tail, hresult, -⟩ := ih (behind_no_imports _) hafter
      refine ⟨[], ?_, .inl rfl⟩
      have hnone : appendToLast tail [] = [] := rfl
      simpa [hnone] using hresult

/-- What stands in front of imports that follow each other does not matter to them. -/
theorem importsOf_behind (h : Arranges trails placed waiting items result late)
    {before after : List Item} {lines : List (List Char)} (hwaiting : waiting = [])
    (hitems : items = before ++ (lines.map .imported ++ after)) (hbefore : importsOf before = [])
    (hafter : importsOf after = []) :
    ∃ tail, importsOf result = importsOf placed ++ sortedImports (appendToLast tail lines) ∧
      (tail = [] ∨ trails ∧ ∃ more, tail = ' ' :: '/' :: '/' :: more) := by
  by_cases hlines : lines = []
  · subst hlines hwaiting
    have hnone : importsOf items = [] := by simp [hitems, hbefore, hafter]
    exact h.importsOf_together (behind_no_imports items) hnone
  obtain ⟨first, more, rfl⟩ := List.exists_cons_of_ne_nil hlines
  -- the steps placed first are steps of `before`
  have hfront {vs : List Visit} {items before : List Item}
      (he : vs.map .step ++ items = before ++ ((first :: more).map .imported ++ after)) :
      ∃ before', before = vs.map .step ++ before' ∧
        items = before' ++ ((first :: more).map .imported ++ after) := by
    rcases List.append_eq_append_iff.1 he with ⟨c, hc, hitems⟩ | ⟨c, hc, hitems⟩
    · exact ⟨c, hc, hitems⟩
    · cases c with
      | nil => exact ⟨[], by simpa using hc.symm, by simpa using hitems.symm⟩
      | cons a c =>
        obtain ⟨rfl, -⟩ := List.cons.inj hitems
        have hmem : Item.imported first ∈ vs.map Item.step := by simp [hc]
        obtain ⟨v, -, hv⟩ := List.mem_map.1 hmem
        cases hv
  induction h generalizing before with
  | done => simp at hitems
  | wait line h ih =>
    cases before with
    | nil =>
      subst hwaiting
      exact (Arranges.wait line h).importsOf_together hitems hafter
    | cons a before =>
      obtain ⟨rfl, -⟩ := List.cons.inj hitems
      cases hbefore
  | comment _ _ _ ih => exact ih (by rw [hwaiting]; rfl) hbefore hitems
  | write vs _ ih =>
    obtain ⟨before', rfl, hrest⟩ := hfront hitems
    rw [importsOf_append, importsOf_steps, List.nil_append] at hbefore
    simpa using ih hwaiting hbefore hrest
  | flush _ _ ih =>
    obtain ⟨before', rfl, hrest⟩ := hfront hitems
    rw [importsOf_append, importsOf_steps, List.nil_append] at hbefore
    simpa [hwaiting] using ih rfl hbefore hrest

end Arranges

/-- The items `placed` are the items of a source, rearranged: the steps keep their order, no import
is lost and none is made up. -/
structure IsArrangement (items placed : List Item) : Prop where
  steps : stepsOf placed = stepsOf items
  kept : ∀ line ∈ importsOf items, ∃ line' ∈ importsOf placed, Commented line line'
  real : ∀ line ∈ importsOf placed, ∃ line' ∈ importsOf items, Commented line' line

theorem Arranges.isArrangement {trails : Prop} {items result : List Item} {late : Bool}
    (h : Arranges trails [] [] items result late) : IsArrangement items result where
  steps := h.stepsOf_eq
  kept line hl := h.exists_imported (.inr hl)
  real line hl := by
    rcases h.exists_of_imported hl with hl | ⟨line', hl' | hl', hc⟩
    · cases hl
    · cases hl'
    · exact ⟨line', hl', hc⟩

end JpaScaffold.Java.Layout
