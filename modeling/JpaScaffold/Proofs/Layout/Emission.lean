import JpaScaffold.Proofs.Layout.Imports
import JpaScaffold.Proofs.Layout.Move
import JpaScaffold.Proofs.Layout.Page

/-!
# What the moves write

A member or a decoration goes behind the lines written so far: first what opens an element, which
is a gap and in a file the waiting imports, then the lines of the member, set in. Nothing else of
the state depends on those lines, so every writing operation is one equation.
-/
namespace JpaScaffold.Java.Layout

def State.setIn (s : State) (o : Options) (lines : List (List Char)) : List (List Char) :=
  lines.map (List.replicate (s.indent o) ' ' ++ ·)

def State.importLines (s : State) : List (List Char) :=
  if s.imports.isEmpty then []
  else (if s.out.isEmpty then [] else [[]]) ++ sortedImports s.imports

/-- The lines in front of an element that nothing stands before. -/
def State.openingLines (s : State) (field : Bool) : List (List Char) :=
  match s.scope.kind with
  | .file => s.importLines ++ (if s.out.isEmpty && s.imports.isEmpty then [] else [[]])
  | .type | .enum => if field && s.scope.afterField then [] else [[]]
  | .code => []

/-- The lines in front of an element, if it has not begun. -/
def State.frontLines (s : State) (field : Bool) : List (List Char) :=
  if s.scope.inElement then [] else s.openingLines field

/-- The imports that still wait behind the front of an element. -/
def State.keptImports (s : State) : List (List Char) :=
  if s.scope.kind = .file ∧ s.scope.inElement = false then [] else s.imports

/-- The imports that are written in front of an element that begins now, in order. -/
def State.dueImports (s : State) : List (List Char) :=
  if s.scope.kind = .file ∧ s.scope.inElement = false then sortedImports s.imports else []

theorem flushImports_eq (s : State) :
    s.flushImports = { s with out := s.out ++ s.importLines, imports := [] } := by
  unfold State.flushImports State.importLines
  split
  · next h =>
    have hi := List.isEmpty_iff.1 h
    rw [List.append_nil, ← hi]
  · simp

theorem beginElement_eq (s : State) (field : Bool) :
    s.beginElement field =
      { s with
        out := s.out ++ s.openingLines field
        imports := if s.scope.kind = .file then [] else s.imports } := by
  unfold State.beginElement State.openingLines
  cases hk : s.scope.kind with
  | file =>
    simp only [flushImports_eq]
    by_cases hi : s.imports = []
    · by_cases ho : s.out = []
      · simp [State.importLines, hi, ho]
      · simp [State.importLines, hi, ho, State.pushGap]
    · have hne : s.importLines ≠ [] := by
        simp [State.importLines, hi, sortedImports_ne_nil hi]
      simp [hi, hne, State.pushGap]
  | type => cases hf : (field && s.scope.afterField) <;> simp [State.pushGap]
  | enum => cases hf : (field && s.scope.afterField) <;> simp [State.pushGap]
  | code => simp

/-- In front of an element stand the imports, and an empty line before and behind them at most. -/
theorem frontLines_eq (s : State) (field : Bool) :
    ∃ before behind, (before = [] ∨ before = [[]]) ∧ (behind = [] ∨ behind = [[]]) ∧
      s.frontLines field = before ++ s.dueImports ++ behind := by
  unfold State.frontLines State.dueImports
  cases hi : s.scope.inElement with
  | true => exact ⟨[], [], .inl rfl, .inl rfl, by simp⟩
  | false =>
    unfold State.openingLines
    cases hk : s.scope.kind with
    | file =>
      by_cases himports : s.imports = []
      · refine ⟨[], if s.out.isEmpty then [] else [[]], .inl rfl, ?_, ?_⟩
        · split
          · exact .inl rfl
          · exact .inr rfl
        · simp [State.importLines, himports]
      · refine ⟨if s.out.isEmpty then [] else [[]], [[]], ?_, .inr rfl, ?_⟩
        · split
          · exact .inl rfl
          · exact .inr rfl
        · simp [State.importLines, himports]
    | type =>
      refine ⟨[], if field && s.scope.afterField then [] else [[]], .inl rfl, ?_, by simp⟩
      split
      · exact .inl rfl
      · exact .inr rfl
    | enum =>
      refine ⟨[], if field && s.scope.afterField then [] else [[]], .inl rfl, ?_, by simp⟩
      split
      · exact .inl rfl
      · exact .inr rfl
    | code => exact ⟨[], [], .inl rfl, .inl rfl, by simp⟩

theorem pushLines_eq (s : State) (o : Options) (lines : List (List Char)) :
    s.pushLines o lines = { s with out := s.out ++ s.setIn o lines } := by
  unfold State.pushLines
  induction lines generalizing s with
  | nil => simp [State.setIn]
  | cons line lines ih =>
    rw [List.foldl_cons, ih]
    simp [State.pushLine, State.setIn, State.indent]

theorem decorate_eq (s : State) (o : Options) (lines : List (List Char)) :
    s.decorate o lines =
      { s with
        out := s.out ++ s.frontLines false ++ s.setIn o lines
        imports := s.keptImports
        scope := { s.scope with inElement := true } } := by
  unfold State.decorate State.frontLines State.keptImports
  cases hi : s.scope.inElement with
  | true => simp [pushLines_eq, State.setIn]
  | false => simp [beginElement_eq, pushLines_eq, State.setIn, State.indent]

theorem emitMember_eq (s : State) (o : Options) (lines : List (List Char)) (field : Bool) :
    s.emitMember o lines field =
      { s with
        out := s.out ++ s.frontLines field ++ s.setIn o lines
        imports := s.keptImports
        scope :=
          { s.scope with inElement := false, afterField := field && !s.scope.inElement } } := by
  unfold State.emitMember State.frontLines State.keptImports
  cases hi : s.scope.inElement with
  | true => simp [pushLines_eq, State.setIn]
  | false => simp [beginElement_eq, pushLines_eq, State.setIn, State.indent]

section

variable (s : State) (o : Options) (lines : List (List Char)) (field : Bool)

@[simp] theorem emitMember_out :
    (s.emitMember o lines field).out = s.out ++ s.frontLines field ++ s.setIn o lines := by
  rw [emitMember_eq]

@[simp] theorem emitMember_outer : (s.emitMember o lines field).outer = s.outer := by
  rw [emitMember_eq]

@[simp] theorem emitMember_pending : (s.emitMember o lines field).pending = s.pending := by
  rw [emitMember_eq]

@[simp] theorem emitMember_carry : (s.emitMember o lines field).carry = s.carry := by
  rw [emitMember_eq]

end

/-! ### Behind a written member no statement is being read -/

theorem pending_emitMember (s : State) (o : Options) (lines : List (List Char)) (field : Bool) :
    (s.clearStatement.emitMember o lines field).pending = [] := by
  rw [emitMember_pending]
  rfl

theorem emptyBlock_of_continued {s : State} {o : Options} {next : Option Token}
    (h : isContinuation next = true) : s.emptyBlock o next =
      { s.clearStatement with carry := some (withBrace s.text ['{', '}']) } :=
  if_pos h

theorem emptyBlock_of_ended {s : State} {o : Options} {next : Option Token}
    (h : isContinuation next = false) : s.emptyBlock o next =
      s.clearStatement.emitMember o [withBrace s.text ['{', '}']] false := by
  unfold State.emptyBlock
  rw [h]
  rfl

theorem pending_emptyBlock (s : State) (o : Options) (next : Option Token) :
    (s.emptyBlock o next).pending = [] := by
  unfold State.emptyBlock
  split
  · rfl
  · exact pending_emitMember s o _ false

theorem pending_openBlock (s : State) (o : Options) (line : Nat) :
    (s.openBlock o line).pending = [] :=
  pending_emitMember s o _ false

/-- A line comment inside a statement, as it is kept. -/
def inlined (t : Token) : Token :=
  { t with kind := .blockComment, text := inlineComment (Text.trimEnd t.text) }

/-- A comment stands behind the token before it, on the same line. -/
def isTrailing (previous : Option Token) (t : Token) : Bool :=
  match previous with
  | some p => p.line == t.line
  | none => false

theorem lineComment_eq (s : State) (o : Options) (t : Token) (previous : Option Token) :
    s.lineComment o t previous =
      if !s.pending.isEmpty then { s with pending := s.pending ++ [inlined t] }
      else if isTrailing previous t && s.scope.kind == .file && !s.imports.isEmpty then
        { s with imports := appendToLast (' ' :: Text.trimEnd t.text) s.imports }
      else if isTrailing previous t && !s.out.isEmpty then
        { s with out := appendToLast (' ' :: Text.trimEnd t.text) s.out }
      else s.decorate o [Text.trimEnd t.text] := rfl

def startsImport : List Token → Bool
  | t :: _ => t.isTheWord "import".toList
  | [] => false

def State.declaresField (s : State) : Bool :=
  (s.scope.kind == .type || s.scope.kind == .enum) && isField s.pending

theorem endStatement_eq (s : State) (o : Options) :
    s.endStatement o =
      if s.scope.kind == .file && startsImport s.pending then
        { s.clearStatement with imports := s.imports ++ [s.text] }
      else s.clearStatement.emitMember o (s.statementLines o) s.declaresField := rfl

theorem endStatement_of_import {s : State} {o : Options} (hk : s.scope.kind = .file)
    (hi : startsImport s.pending = true) :
    s.endStatement o = { s.clearStatement with imports := s.imports ++ [s.text] } := by
  rw [endStatement_eq, if_pos (by simp [hk, hi])]

theorem endStatement_of_member {s : State} {o : Options}
    (h : s.scope.kind = .file → startsImport s.pending = false) :
    s.endStatement o =
      s.clearStatement.emitMember o (s.statementLines o) s.declaresField := by
  rw [endStatement_eq, if_neg]
  intro hi
  simp only [Bool.and_eq_true, beq_iff_eq] at hi
  rw [h hi.1] at hi
  exact absurd hi.2 (by decide)

theorem blockKind_ne_file (header : List Token) : blockKind header ≠ .file := by
  unfold blockKind
  split
  · split
    · simp
    · simp
  · simp

theorem pending_endStatement (s : State) (o : Options) : (s.endStatement o).pending = [] := by
  rw [endStatement_eq]
  split
  · rfl
  · exact pending_emitMember s o _ _

/-- A statement without an end is written: the constants of an enumeration. -/
def State.settled (s : State) (o : Options) : State :=
  if s.pending.isEmpty then s else s.clearStatement.emitMember o (s.statementLines o) true

theorem pending_settled (s : State) (o : Options) : (s.settled o).pending = [] := by
  unfold State.settled
  split
  · next hp => exact List.isEmpty_iff.1 hp
  · exact pending_emitMember s o _ true

def State.left (s : State) (o : Options) (around : Scope) (outer : List Scope)
    (next : Option Token) : State :=
  let s := { s with scope := { around with afterField := false }, outer := outer }
  if isContinuation next then { s with carry := some ['}'] } else s.pushLine o ['}']

theorem left_of_continued {s : State} {o : Options} {around : Scope} {outer : List Scope}
    {next : Option Token} (h : isContinuation next = true) : s.left o around outer next =
      { s with scope := { around with afterField := false }, outer, carry := some ['}'] } :=
  if_pos h

theorem left_of_ended {s : State} {o : Options} {around : Scope} {outer : List Scope}
    {next : Option Token} (h : isContinuation next = false) : s.left o around outer next =
      State.pushLine { s with scope := { around with afterField := false }, outer } o ['}'] := by
  unfold State.left
  rw [h]
  rfl

theorem pending_left (s : State) (o : Options) (around : Scope) (outer : List Scope)
    (next : Option Token) : (s.left o around outer next).pending = s.pending := by
  unfold State.left
  split <;> rfl

theorem closeBlock_eq_ok {s s' : State} {o : Options} {line : Nat} {next : Option Token} :
    s.closeBlock o line next = .ok s' ↔
      ∃ around outer, s.outer = around :: outer ∧ (s.pending ≠ [] → s.scope.kind = .enum) ∧
        s' = (s.settled o).left o around outer next := by
  unfold State.closeBlock
  constructor
  · intro h
    split at h
    · cases h
    · next around outer hout =>
      split at h
      · cases h
      · next hp =>
        cases h
        refine ⟨around, outer, hout, fun hne => ?_, rfl⟩
        by_contra hk
        exact hp (by simp [hne, hk])
  · rintro ⟨around, outer, hout, hp, rfl⟩
    rw [hout]
    simp only
    rw [if_neg]
    · rfl
    · intro hc
      simp only [Bool.and_eq_true, Bool.not_eq_true', bne_iff_ne] at hc
      exact hc.2 (hp (by simpa using hc.1))

end JpaScaffold.Java.Layout
