import JpaScaffold.Proofs.Layout.Loop

/-!
# A layout on a stack

A layout has its innermost block at hand; the loop has it on the top of a stack. From corresponding
states every operation leads to corresponding states, and stops only where the source is wrong.
-/
namespace JpaScaffold.Java.Layout

variable {o : Options} {s : State}

/-- The same layout with its open blocks on a stack. -/
def State.machine (s : State) : Machine where
  out := s.out
  scopes := s.outer.reverse ++ [s.scope]
  imports := s.imports
  pending := s.pending
  nesting := s.nesting
  assigned := s.assigned
  carry := s.carry

section

variable (s : State)

@[simp] theorem machine_out : s.machine.out = s.out := rfl

@[simp] theorem machine_imports : s.machine.imports = s.imports := rfl

@[simp] theorem machine_pending : s.machine.pending = s.pending := rfl

@[simp] theorem machine_nesting : s.machine.nesting = s.nesting := rfl

@[simp] theorem machine_assigned : s.machine.assigned = s.assigned := rfl

@[simp] theorem machine_carry : s.machine.carry = s.carry := rfl

end

/-- What an operation of a layout returns, as the loop returns it. -/
def onStack (e : Except SourceError State) : Except Stop Machine :=
  (e.map State.machine).mapError .source

/-! ## The top of the stack -/

theorem machine_depth (s : State) : minus s.machine.scopes.length 1 = .ok s.outer.length := by
  have h : s.machine.scopes.length = s.outer.length + 1 := by simp [State.machine]
  rw [h, minus_succ]

theorem machine_top (s : State) : elementAt s.machine.scopes s.outer.length = .ok s.scope := by
  have h := elementAt_append_cons s.outer.reverse [] s.scope
  rwa [List.length_reverse] at h

@[simp] theorem machine_scope (s : State) : s.machine.scope = .ok s.scope := by
  rw [Machine.scope, machine_depth, ok_bind, machine_top]

@[simp] theorem machine_setScope (s : State) (scope : Scope) :
    s.machine.setScope scope = .ok { s with scope := scope }.machine := by
  rw [Machine.setScope, machine_depth, ok_bind, machine_top, ok_bind]
  simp [State.machine]
  rfl

@[simp] theorem machine_indent (s : State) (o : Options) :
    s.machine.indent o = .ok (s.indent o) := by
  rw [Machine.indent, machine_depth]
  rfl

/-! ## Lines -/

@[simp] theorem machine_pushLine (s : State) (o : Options) (line : List Char) :
    s.machine.pushLine o line = .ok (s.pushLine o line).machine := by
  rw [Machine.pushLine, machine_indent]
  rfl

@[simp] theorem machine_pushLines (s : State) (o : Options) (lines : List (List Char)) :
    s.machine.pushLines o lines = .ok (s.pushLines o lines).machine := by
  rw [Machine.pushLines, State.pushLines]
  induction lines generalizing s with
  | nil => rfl
  | cons line lines ih => rw [List.foldlM_cons, machine_pushLine, ok_bind, ih, List.foldl_cons]

@[simp] theorem machine_pushGap (s : State) : s.machine.pushGap = s.pushGap.machine := rfl

@[simp] theorem machine_flushImports (s : State) :
    s.machine.flushImports = s.flushImports.machine := by
  unfold Machine.flushImports State.flushImports
  rw [apply_ite State.machine]
  rfl

/-! ## Elements -/

@[simp] theorem machine_beginElement (s : State) (field : Bool) :
    s.machine.beginElement field = .ok (s.beginElement field).machine := by
  rw [Machine.beginElement, machine_scope, ok_bind]
  unfold State.beginElement
  cases s.scope.kind with
  | file =>
    rw [machine_flushImports, machine_pushGap, apply_ite State.machine]
    rfl
  | type =>
    rw [machine_pushGap, apply_ite State.machine]
    rfl
  | enum =>
    rw [machine_pushGap, apply_ite State.machine]
    rfl
  | code => rfl

theorem machine_element (s : State) (o : Options) (lines : List (List Char)) (begun field : Bool) :
    s.machine.element o lines begun field =
      .ok ((if begun then s else s.beginElement field).pushLines o lines).machine := by
  cases begun with
  | true => exact machine_pushLines s o lines
  | false =>
    rw [Machine.element, if_neg (by decide), machine_beginElement, ok_bind, machine_pushLines]
    rfl

@[simp] theorem machine_decorate (s : State) (o : Options) (lines : List (List Char)) :
    s.machine.decorate o lines = .ok (s.decorate o lines).machine := by
  rw [Machine.decorate, machine_scope, ok_bind, machine_element, ok_bind, machine_scope, ok_bind,
    machine_setScope]
  rfl

@[simp] theorem machine_emitMember (s : State) (o : Options) (lines : List (List Char))
    (field : Bool) :
    s.machine.emitMember o lines field = .ok (s.emitMember o lines field).machine := by
  rw [Machine.emitMember, machine_scope, ok_bind, machine_element, ok_bind, machine_scope, ok_bind,
    machine_setScope]
  rfl

/-! ## Statements -/

@[simp] theorem machine_clearStatement (s : State) :
    s.machine.clearStatement = s.clearStatement.machine := rfl

@[simp] theorem machine_text (s : State) : s.machine.text = s.text := rfl

theorem machine_brokenLines (s : State) (o : Options) :
    s.machine.brokenLines o (startsOf (chainPieces 0 s.pending).1.length (chainPieces 0 s.pending).2) =
      .ok (withCarry s.carry (joinTokens (chainPieces 0 s.pending).1) ::
        (chainPieces 0 s.pending).2.map fun piece =>
          List.replicate o.tabWidth ' ' ++ joinTokens piece) := by
  have happend := chainPieces_append 0 s.pending
  have hslices := slicesAt_chainBreaks s.pending
  revert happend hslices
  generalize chainPieces 0 s.pending = pieces
  obtain ⟨first, more⟩ := pieces
  intro happend hslices
  cases more with
  | nil =>
    simp only [List.flatten_nil, List.append_nil] at happend
    rw [happend]
    rfl
  | cons piece more =>
    have hfront : slice s.pending 0 first.length = .ok first := by
      rw [← happend, slice_front]
    rw [startsOf] at hslices ⊢
    rw [Machine.brokenLines, machine_pending, hfront, ok_bind, hslices]
    rfl

@[simp] theorem machine_statementLines (s : State) (o : Options) :
    s.machine.statementLines o = .ok (s.statementLines o) := by
  rw [Machine.statementLines, machine_indent, ok_bind, machine_text, State.statementLines]
  split
  · rfl
  · rw [machine_pending, chainBreaks_eq, ok_bind, machine_brokenLines]

theorem machine_dangling {α : Type} (h : s.pending ≠ []) :
    (s.machine.dangling : Except Stop α) = .error (.source (State.danglingAt s.pending)) := by
  obtain ⟨first, more, hp⟩ := List.exists_cons_of_ne_nil h
  rw [Machine.dangling, machine_pending, hp]
  rfl

theorem machine_lineComment (s : State) (o : Options) (t : Token) (previous : Option Token) :
    s.machine.lineComment o t previous = .ok (s.lineComment o t previous).machine := by
  rw [Machine.lineComment, lineComment_eq, machine_pending]
  split
  · rfl
  · cases isTrailing previous t with
    | false => exact machine_decorate s o _
    | true =>
      rw [if_pos rfl, machine_scope, ok_bind, Bool.true_and, Bool.true_and, machine_imports, machine_out]
      split
      · rfl
      · split
        · rfl
        · exact machine_decorate s o _

theorem machine_endStatement (s : State) (o : Options) :
    s.machine.endStatement o = .ok (s.endStatement o).machine := by
  rw [Machine.endStatement, endStatement_eq, machine_scope, ok_bind, machine_pending]
  split
  · rfl
  · rw [machine_statementLines, ok_bind, machine_clearStatement, machine_emitMember]
    rfl

/-! ## Blocks -/

theorem machine_openBlock (s : State) (o : Options) (line : Nat) :
    s.machine.openBlock o line = .ok (s.openBlock o line).machine := by
  rw [Machine.openBlock, machine_clearStatement, machine_emitMember, ok_bind]
  simp [State.openBlock, State.machine, emitMember_eq]
  rfl

theorem machine_emptyBlock (s : State) (o : Options) (next : Option Token) :
    s.machine.emptyBlock o next = .ok (s.emptyBlock o next).machine := by
  unfold Machine.emptyBlock State.emptyBlock
  split
  · rfl
  · exact machine_emitMember s.clearStatement o _ false

theorem machine_settle (h : s.pending ≠ [] → s.scope.kind = .enum) :
    s.machine.settle o = .ok (s.settled o).machine := by
  rw [Machine.settle, State.settled, machine_pending]
  split
  · rfl
  · next hp =>
    have hk : s.scope.kind = .enum := h (by simpa using hp)
    rw [machine_scope, ok_bind, if_neg (by simp [hk]), machine_statementLines, ok_bind,
      machine_clearStatement, machine_emitMember]

theorem machine_settle_dangling (hp : s.pending ≠ []) (hk : s.scope.kind ≠ .enum) :
    s.machine.settle o = .error (.source (State.danglingAt s.pending)) := by
  rw [Machine.settle, machine_pending, if_neg (by simpa using hp), machine_scope, ok_bind, if_pos (by simpa using hk),
    machine_dangling hp]

theorem machine_leave {around : Scope} {outer : List Scope} (h : s.outer = around :: outer)
    (o : Options) (next : Option Token) :
    s.machine.leave o next = .ok (s.left o around outer next).machine := by
  have hdrop : { s.machine with scopes := s.machine.scopes.dropLast } =
      { s with scope := around, outer := outer }.machine := by
    simp [State.machine, h]
  rw [Machine.leave]
  simp only [hdrop, machine_scope, ok_bind, machine_setScope]
  rw [State.left]
  split
  · rfl
  · exact machine_pushLine _ o _

theorem settled_outer (s : State) (o : Options) : (s.settled o).outer = s.outer := by
  unfold State.settled
  split
  · rfl
  · rw [emitMember_outer]
    rfl

theorem machine_closeBlock (s : State) (o : Options) (line : Nat) (next : Option Token) :
    s.machine.closeBlock o line next = onStack (s.closeBlock o line next) := by
  rw [Machine.closeBlock]
  cases hout : s.outer with
  | nil =>
    rw [if_pos (by simp [State.machine, hout]), State.closeBlock, hout]
    rfl
  | cons around outer =>
    rw [if_neg (by simp [State.machine, hout])]
    by_cases hp : s.pending ≠ [] ∧ s.scope.kind ≠ .enum
    · rw [machine_settle_dangling hp.1 hp.2, error_bind, State.closeBlock, hout]
      simp [hp.1, hp.2, onStack, Except.map, Except.mapError]
    · have hk : s.pending ≠ [] → s.scope.kind = .enum := by
        intro hne
        by_contra hk
        exact hp ⟨hne, hk⟩
      have hclose : s.closeBlock o line next = .ok ((s.settled o).left o around outer next) :=
        closeBlock_eq_ok.2 ⟨around, outer, hout, hk, rfl⟩
      rw [machine_settle hk, ok_bind, machine_leave (by rw [settled_outer, hout]), hclose]
      rfl

/-! ## Tokens -/

theorem machine_pushToken (s : State) (t : Token) :
    s.machine.pushToken t = onStack (s.pushToken t) := by
  rw [Machine.pushToken, State.pushToken, machine_nesting]
  cases State.opens? t with
  | some b => rfl
  | none =>
    cases State.closes? t with
    | none => rfl
    | some b =>
      cases s.nesting with
      | nil => rfl
      | cons bracket rest =>
        dsimp only
        split
        · rfl
        · rfl

theorem machine_settleCarry (s : State) (o : Options) :
    s.machine.settleCarry o = .ok (match s.carry with
      | some closed => { s with carry := none }.pushLine o closed
      | none => s).machine := by
  rw [Machine.settleCarry, machine_carry]
  cases s.carry with
  | none => rfl
  | some closed => exact machine_pushLine { s with carry := none } o closed

theorem machine_finish (s : State) (o : Options) :
    s.machine.finish o = (finish o s).mapError .source := by
  rw [Machine.finish, machine_pending, machine_nesting]
  by_cases hp : s.pending = []
  · cases hn : s.nesting with
    | cons bracket rest => simp [finish, hp, hn, Except.mapError]
    | nil =>
      cases hout : s.outer with
      | cons around outer =>
        have hdepth : 1 < s.machine.scopes.length := by simp [State.machine, hout]
        simp only [finish, hp, hn, hout, hdepth, machine_scope, ok_bind]
        rfl
      | nil =>
        have hdepth : ¬1 < s.machine.scopes.length := by simp [State.machine, hout]
        simp only [finish, hp, hn, hout, hdepth, machine_settleCarry, ok_bind, machine_flushImports]
        rfl
  · have hne : (!s.pending.isEmpty) = true := by simpa using hp
    rw [finish, if_pos hne, if_pos hne, machine_dangling hp]
    rfl

end JpaScaffold.Java.Layout
