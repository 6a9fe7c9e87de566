import JpaScaffold.Proofs.Layout.Outline
import JpaScaffold.Proofs.Layout.Seams

/-!
# Moves while imports wait

What a move does to the statements does not depend on the imports that wait. Without them, a move
goes on alike: from the state in which the due imports are written, where it writes an element, and
from the state as it is, where it does not. So every move is of one of six kinds, by what becomes of
the statement that is being read and of the imports.
-/
namespace JpaScaffold.Java.Layout

open Text (trimEnd)

variable {o : Options} {s : State} {previous : Option Token} {t : Token} {rest : List Token}

def State.cleared (s : State) : State := { s with imports := [] }

/-- The lines of the imports that are due in front of an element that begins now. -/
def State.dueLines (s : State) : List (List Char) :=
  if s.scope.kind = .file ∧ s.scope.inElement = false then s.importLines else []

/-- The state with the due imports written, without those that wait on. -/
def State.served (s : State) : State := { s with out := s.out ++ s.dueLines, imports := [] }

def State.importing (s : State) : Bool := s.scope.kind == .file && startsImport s.pending

/-- A line comment in front of all tokens of a source. -/
def foremost : Token := ⟨.lineComment, [], false, 0⟩

theorem importLines_of_nil (h : s.imports = []) : s.importLines = [] := by
  simp [State.importLines, h]

theorem served_of_kind (h : s.scope.kind ≠ .file) : s.served = s.cleared := by
  simp [State.served, State.cleared, State.dueLines, h]

theorem keptImports_of_kind (h : s.scope.kind ≠ .file) : s.keptImports = s.imports :=
  if_neg fun hk => h hk.1

theorem isEmpty_importLines (s : State) :
    (s.out ++ s.importLines).isEmpty = (s.out.isEmpty && s.imports.isEmpty) := by
  unfold State.importLines
  cases himports : s.imports with
  | nil => simp
  | cons line lines => simp [sortedImports_ne_nil]

theorem frontLines_served (s : State) (field : Bool) :
    s.frontLines field = s.dueLines ++ s.served.frontLines field := by
  unfold State.frontLines State.dueLines
  have hscope : s.served.scope = s.scope := rfl
  rw [hscope]
  cases hi : s.scope.inElement with
  | true => simp
  | false =>
    unfold State.openingLines
    rw [hscope]
    cases hk : s.scope.kind with
    | file =>
      have hnone : s.served.importLines = [] := importLines_of_nil rfl
      have hout : s.served.out = s.out ++ s.importLines := by
        simp [State.served, State.dueLines, hk, hi]
      have himports : s.served.imports = [] := rfl
      simp only [hnone, hout, himports, isEmpty_importLines, List.isEmpty_nil, Bool.and_true,
        and_self, if_true, List.nil_append, Bool.false_eq_true, if_false]
    | type => simp
    | enum => simp
    | code => simp

theorem cleared_decorate (s : State) (o : Options) (lines : List (List Char)) :
    (s.decorate o lines).cleared = s.served.decorate o lines := by
  have hkept : s.served.keptImports = [] := keptImports_of_nil rfl
  rw [decorate_eq, decorate_eq, frontLines_served, hkept]
  simp only [State.cleared, State.served, List.append_assoc]
  rfl

theorem cleared_emitMember (s : State) (o : Options) (lines : List (List Char)) (field : Bool) :
    (s.emitMember o lines field).cleared = s.served.emitMember o lines field := by
  have hkept : s.served.keptImports = [] := keptImports_of_nil rfl
  rw [emitMember_eq, emitMember_eq, frontLines_served, hkept]
  simp only [State.cleared, State.served, List.append_assoc]
  rfl

theorem cleared_settled (h : s.pending ≠ [] → s.scope.kind = .enum) :
    (s.settled o).cleared = s.cleared.settled o := by
  unfold State.settled
  by_cases hp : s.pending = []
  · rw [if_pos (by simp [hp]), if_pos (by simp [State.cleared, hp])]
  · rw [if_neg (by simp [hp]), if_neg (by simp [State.cleared, hp]), cleared_emitMember,
      served_of_kind (s := s.clearStatement) (by rw [show s.clearStatement.scope = s.scope from rfl, h hp]; decide)]
    rfl

theorem cleared_left (around : Scope) (outer : List Scope) (next : Option Token) :
    (s.left o around outer next).cleared = s.cleared.left o around outer next := by
  unfold State.left
  split <;> rfl

theorem cleared_closeBlock {s' : State} {line : Nat} {next : Option Token}
    (h : s.closeBlock o line next = .ok s') :
    s.cleared.closeBlock o line next = .ok s'.cleared := by
  obtain ⟨around, outer, hout, hp, rfl⟩ := closeBlock_eq_ok.1 h
  exact closeBlock_eq_ok.2 ⟨around, outer, hout, hp, by rw [cleared_left, cleared_settled hp]⟩

theorem cleared_pushToken {s' : State} (h : s.pushToken t = .ok s') :
    s.cleared.pushToken t = .ok s'.cleared := by
  unfold State.pushToken at h ⊢
  have hn : s.cleared.nesting = s.nesting := rfl
  rw [hn]
  split at h
  · cases h
    rfl
  · split at h
    · split at h
      · next hb =>
        cases h
        rw [if_pos hb]
        rfl
      · cases h
    · cases h
  · cases h
    rfl

theorem cleared_endStatement (h : s.scope.kind = .file → startsImport s.pending = false) :
    (s.endStatement o).cleared = s.served.endStatement o := by
  rw [endStatement_of_member h, endStatement_of_member (s := s.served) h, cleared_emitMember]
  rfl

theorem cleared_openBlock (line : Nat) :
    (s.openBlock o line).cleared = s.served.openBlock o line := by
  have hemit := cleared_emitMember s.clearStatement o [withBrace s.text ['{']] false
  have hserved : s.clearStatement.served = s.served.clearStatement := rfl
  have htext : s.served.text = s.text := rfl
  have hpending : s.served.pending = s.pending := rfl
  simp only [State.openBlock]
  rw [htext, hpending, ← hserved, ← hemit]
  rfl

theorem cleared_emptyBlock {next : Option Token} (h : isContinuation next = false) :
    (s.emptyBlock o next).cleared = s.served.emptyBlock o next := by
  rw [emptyBlock_of_ended h, emptyBlock_of_ended h]
  exact cleared_emitMember s.clearStatement o [withBrace s.text ['{', '}']] false

/-! ## What a move does to the statement -/

theorem startsImport_of_kind (h : t.kind ≠ .word) (ts : List Token) :
    startsImport (t :: ts) = false := by
  simp [startsImport, Token.isTheWord, h]

theorem not_isContinuation_import (h : t.isTheWord "import".toList = true) :
    isContinuation (some t) = false :=
  Seam.closed.admits_freely (t := t) (by rw [opensFreely, h, Bool.or_true]) []

theorem Visit.endsImport_iff {v : Visit} :
    v.endsImport = true ↔ v.state.scope.kind = .file ∧ v.state.nesting = [] ∧
      startsImport v.state.pending = true ∧ ∃ t, v.taken = [t] ∧ t.isPunct [';'] = true := by
  obtain ⟨state, taken, rest⟩ := v
  rcases taken with _ | ⟨t, _ | ⟨u, taken⟩⟩ <;> simp [Visit.endsImport, and_assoc]

theorem Visit.endsImport_alone (h : t.isPunct [';'] = true → s.nesting ≠ []) :
    Visit.endsImport ⟨s, [t], rest⟩ = false := by
  refine eq_false_of_ne_true fun he => ?_
  obtain ⟨-, hn, -, u, hu, hsemi⟩ := Visit.endsImport_iff.1 he
  obtain rfl : t = u := by simpa using hu
  exact h hsemi hn

theorem Visit.endsImport_of_isPunct (h : t.isPunct [';'] = false) :
    Visit.endsImport ⟨s, [t], rest⟩ = false :=
  Visit.endsImport_alone fun hsemi => absurd (h ▸ hsemi) Bool.false_ne_true

@[simp] theorem Visit.endsImport_more {u : Token} {taken : List Token} :
    Visit.endsImport ⟨s, t :: u :: taken, rest⟩ = false := by
  simp [Visit.endsImport]

theorem Visit.readsImport_of_endsImport {v : Visit} (h : v.endsImport = true) :
    v.readsImport = true := by
  obtain ⟨hfile, -, hstart, t, htaken, hsemi⟩ := Visit.endsImport_iff.1 h
  have hbrace : t.isPunct ['{'] = false := isPunct_disjoint hsemi (by decide)
  simp [Visit.readsImport, Visit.opensBlock, hfile, startsImport_append hstart, htaken, hbrace]

theorem Visit.opensBlock_iff {taken : List Token} :
    Visit.opensBlock ⟨s, t :: taken, rest⟩ = true ↔
      s.nesting = [] ∧ s.assigned = false ∧ t.isPunct ['{'] = true := by
  simp [Visit.opensBlock, and_assoc]

theorem Visit.declaresType_of_readsImport {v : Visit} (h : v.readsImport = true) :
    v.declaresType = false := by
  have hopens : v.opensBlock = false := by simpa using (Bool.and_eq_true_iff.1 h).2
  rw [Visit.declaresType, hopens, Bool.false_and]

theorem Visit.declaresType_of_kind {taken : List Token} (h : t.isPunct ['{'] = false) :
    Visit.declaresType ⟨s, t :: taken, rest⟩ = false := by
  simp [Visit.declaresType, Visit.opensBlock, h]

theorem pending_lineComment (h : s.pending = []) :
    (s.lineComment o t previous).pending = [] ∧ (s.lineComment o t previous).carry = s.carry := by
  rw [lineComment_eq, if_neg (by simp [h])]
  split
  · exact ⟨h, rfl⟩
  · split
    · exact ⟨h, rfl⟩
    · rw [decorate_eq]
      exact ⟨h, rfl⟩

theorem importing_eq_false (h : s.pending = []) : s.importing = false := by
  simp [State.importing, h, startsImport]

theorem Visit.readsImport_eq_false {taken : List Token} (hp : s.pending = []) (hk : t.kind ≠ .word) :
    Visit.readsImport ⟨s, t :: taken, rest⟩ = false := by
  simp [Visit.readsImport, hp, startsImport_of_kind hk]

theorem Visit.readsImport_of_opensBlock {v : Visit} (h : v.opensBlock = true) :
    v.readsImport = false := by
  rw [Visit.readsImport, h]
  simp

/-- A semicolon that ends a statement ends every import in which it is read. -/
theorem Visit.endsImport_semicolon (hb : t.isPunct [';'] = true) (hn : s.nesting = []) :
    Visit.endsImport ⟨s, [t], rest⟩ = Visit.readsImport ⟨s, [t], rest⟩ := by
  have hbrace : t.isPunct ['{'] = false := isPunct_disjoint hb (by decide)
  cases hp : s.pending with
  | nil =>
    rw [Visit.readsImport_eq_false hp (by simp [kind_of_isPunct hb])]
    simp [Visit.endsImport, hp, startsImport]
  | cons x xs =>
    simp [Visit.endsImport, Visit.readsImport, Visit.opensBlock, hp, startsImport, hn, hb, hbrace]

/-- A line comment is read in the import that is being read, and ends none. -/
theorem importing_lineComment (hk : t.kind = .lineComment) :
    (s.lineComment o t previous).importing =
      (Visit.readsImport ⟨s, [t], rest⟩ && !Visit.endsImport ⟨s, [t], rest⟩) := by
  by_cases hp : s.pending = []
  · rw [importing_eq_false (pending_lineComment hp).1,
      Visit.readsImport_eq_false hp (by simp [hk]), Bool.false_and]
  · have hpunct : t.isPunct ['{'] = false := by simp [Token.isPunct, hk]
    rw [lineComment_of_pending hp, Visit.endsImport_of_isPunct (by simp [Token.isPunct, hk])]
    obtain ⟨x, xs, hx⟩ := List.exists_cons_of_ne_nil hp
    simp [State.importing, Visit.readsImport, Visit.opensBlock, hpunct, hx, startsImport]

/-- Behind a move an import is being read if the move has read on in one and has not ended it. -/
theorem Move.importing {p : Progress} {taken : List Token} (hm : Move o s previous t rest p)
    (ht : t :: rest = taken ++ p.rest) :
    p.state.importing =
      (Visit.readsImport ⟨s, taken, p.rest⟩ && !Visit.endsImport ⟨s, taken, p.rest⟩) := by
  have alone (h : [t] ++ rest = taken ++ rest) : taken = [t] := (List.append_cancel_right h).symm
  cases hm with
  | lineComment hk =>
    obtain rfl := alone ht
    exact importing_lineComment hk
  | blockComment hk hs =>
    obtain rfl := alone ht
    have hp := (State.atStart_iff.1 hs).1
    rw [importing_eq_false (by rw [decorate_eq]; exact hp),
      Visit.readsImport_eq_false hp (by simp [hk]), Bool.false_and]
  | @decoration name more tail rest' hr hs ha hta =>
    subst hr
    rw [← annotationTail_append hta] at ht
    obtain rfl : t :: name :: tail = taken := List.append_cancel_right ht
    have hp := (State.atStart_iff.1 hs).1
    have hk := kind_of_isPunct (startsAnnotation_isPunct ha)
    rw [importing_eq_false (by rw [decorate_eq]; exact hp),
      Visit.readsImport_eq_false hp (by simp [hk]), Bool.false_and]
  | @emptyBlock next rest' hr hb hn ha hc =>
    subst hr
    obtain rfl : [t, next] = taken := List.append_cancel_right ht
    rw [importing_eq_false (pending_emptyBlock s o _),
      Visit.readsImport_of_opensBlock (Visit.opensBlock_iff.2 ⟨hn, ha, hb⟩), Bool.false_and]
  | openBlock hb hn ha hr =>
    obtain rfl := alone ht
    rw [importing_eq_false (pending_openBlock s o _),
      Visit.readsImport_of_opensBlock (Visit.opensBlock_iff.2 ⟨hn, ha, hb⟩), Bool.false_and]
  | closeBlock hb hn hs =>
    obtain rfl := alone ht
    obtain ⟨around, outer, -, henum, rfl⟩ := closeBlock_eq_ok.1 hs
    rw [importing_eq_false (by rw [pending_left, pending_settled])]
    by_cases hp : s.pending = []
    · rw [Visit.readsImport_eq_false hp (by simp [kind_of_isPunct hb]), Bool.false_and]
    · simp [Visit.readsImport, henum hp]
  | statement hb hn =>
    obtain rfl := alone ht
    rw [importing_eq_false (pending_endStatement _ o), Visit.endsImport_semicolon hb hn]
    simp
  | token hl hb ha hopen hclose hend hp =>
    obtain rfl := alone ht
    have hopens : Visit.opensBlock ⟨s, [t], rest⟩ = false := by
      refine eq_false_of_ne_true fun h => ?_
      obtain ⟨hn, has, hbrace⟩ := Visit.opensBlock_iff.1 h
      rw [hopen hbrace hn] at has
      cases has
    rw [pushToken_eq hp, Visit.endsImport_alone hend, Visit.readsImport, hopens]
    simp [State.importing]

theorem Move.readsImport_eq_false {p : Progress} {taken : List Token}
    (hm : Move o s previous t rest p) (ht : t :: rest = taken ++ p.rest) (hp : p.state.pending = [])
    (he : Visit.endsImport ⟨s, taken, p.rest⟩ = false) :
    Visit.readsImport ⟨s, taken, p.rest⟩ = false := by
  have himporting := hm.importing ht
  rw [he] at himporting
  simpa [State.importing, hp, startsImport] using himporting.symm

/-- What a move does to the statement that is being read and to the imports that wait. In all but
the last two kinds the move is one of the state without these imports, too. -/
inductive Effect (o : Options) (s : State) (previous : Option Token) (t : Token)
    (rest taken : List Token) (p : Progress) : Prop
  /-- The step is held for a line to come. -/
  | held (hm : Move o s.cleared (some foremost) t rest ⟨p.state.cleared, p.previous, p.rest⟩)
      (hout : p.state.out = s.out) (himports : p.state.imports = s.imports)
      (hscope : p.state.scope = s.scope) (hopen : p.state.pending ≠ [] ∨ p.state.carry ≠ none)
      (hends : Visit.endsImport ⟨s, taken, p.rest⟩ = false)
  /-- All that is held is written, behind the imports that are due. -/
  | written (hm : Move o s.served (some foremost) t rest ⟨p.state.cleared, p.previous, p.rest⟩)
      (hp : p.state.pending = []) (hc : p.state.carry = none)
      (himports : p.state.imports = s.keptImports)
      (hreads : Visit.readsImport ⟨s, taken, p.rest⟩ = false)
  /-- A comment goes behind the last line. -/
  | trailing (hm : Move o s.cleared previous t rest ⟨p.state.cleared, p.previous, p.rest⟩)
      (ht : t.kind = .lineComment) (htaken : taken = [t]) (hidle : s.pending = [] ∧ s.carry = none)
      (hp : p.state.pending = []) (hc : p.state.carry = none) (himports : p.state.imports = s.imports)
      (hnone : s.imports = [] ∨ s.scope.kind ≠ .file)
      (hreads : Visit.readsImport ⟨s, taken, p.rest⟩ = false)
  /-- A block is closed; its brace may be held for a line to come. -/
  | closed (hm : Move o s.cleared (some foremost) t rest ⟨p.state.cleared, p.previous, p.rest⟩)
      (ht : t.isPunct ['}'] = true) (htaken : taken = [t]) (hp : p.state.pending = [])
      (hc : p.state.carry = none ∨ p.state.carry = some ['}'])
      (himports : p.state.imports = s.imports)
      (henum : s.pending = [] ∧ s.carry = none ∨ s.scope.kind = .enum)
      (hreads : Visit.readsImport ⟨s, taken, p.rest⟩ = false)
  /-- A comment goes behind the import that waits last. -/
  | comment (ht : t.kind = .lineComment) (htaken : taken = [t])
      (hs : p = ⟨{ s with imports := appendToLast (' ' :: trimEnd t.text) s.imports }, some t, rest⟩)
      (htrail : isTrailing previous t = true) (hp : s.pending = []) (hc : s.carry = none)
      (hfile : s.scope.kind = .file) (hne : s.imports ≠ [])
  /-- An import statement ends and waits. -/
  | imported (ht : t.isPunct [';'] = true) (htaken : taken = [t])
      (hs : p = ⟨{ s.clearStatement with
        imports := s.imports ++ [joinTokens (s.pending ++ [t])] }, some t, rest⟩)
      (hc : s.carry = none) (hends : Visit.endsImport ⟨s, taken, p.rest⟩ = true)

theorem isTrailing_foremost (h : 0 < t.line) : isTrailing (some foremost) t = false := by
  have hne : (0 : Nat) ≠ t.line := by omega
  exact beq_eq_false_iff_ne.2 hne

/-- A line comment where no statement is being read. -/
theorem effect_lineComment (hk : t.kind = .lineComment) (hp : s.pending = []) (hc : s.carry = none)
    (hline : 0 < t.line) :
    Effect o s previous t rest [t] ⟨s.lineComment o t previous, some t, rest⟩ := by
  have hpending : (s.lineComment o t previous).pending = [] := (pending_lineComment hp).1
  have hcarry : (s.lineComment o t previous).carry = s.carry := (pending_lineComment hp).2
  have hm : Move o s previous t rest ⟨s.lineComment o t previous, some t, rest⟩ := .lineComment hk
  have hreads := hm.readsImport_eq_false rfl hpending
    (Visit.endsImport_of_isPunct (by simp [Token.isPunct, hk]))
  have heq := lineComment_eq s o t previous
  rw [if_neg (by simp [hp])] at heq
  -- the comment goes behind a waiting import, behind the line written last, or on a line of its own
  by_cases himport : (isTrailing previous t && s.scope.kind == .file && !s.imports.isEmpty) = true
  · rw [if_pos himport] at heq
    simp only [Bool.and_eq_true, beq_iff_eq, Bool.not_eq_true', List.isEmpty_eq_false_iff] at himport
    exact .comment hk rfl (by rw [heq]) himport.1.1 hp hc himport.1.2 himport.2
  rw [if_neg himport] at heq
  by_cases hout : (isTrailing previous t && !s.out.isEmpty) = true
  · rw [if_pos hout] at heq
    have hnone : s.imports = [] ∨ s.scope.kind ≠ .file := by
      by_contra hboth
      simp only [not_or, not_not] at hboth
      simp [(Bool.and_eq_true_iff.1 hout).1, hboth.1, hboth.2] at himport
    have hcleared : s.cleared.lineComment o t previous = (s.lineComment o t previous).cleared := by
      have hquiet : s.cleared.imports = [] := rfl
      have hlines : s.cleared.out = s.out := rfl
      rw [lineComment_eq, if_neg (by simp [State.cleared, hp]), if_neg (by simp [hquiet]), hlines,
        if_pos hout, heq]
      rfl
    refine .trailing ?_ hk rfl ⟨hp, hc⟩ hpending (hcarry.trans hc) (by rw [heq]) hnone hreads
    exact hcleared ▸ Move.lineComment hk
  · rw [if_neg hout] at heq
    have hserved : s.served.lineComment o t (some foremost) =
        (s.lineComment o t previous).cleared := by
      rw [lineComment_eq, if_neg (by simp [State.served, hp]), isTrailing_foremost hline, heq,
        cleared_decorate]
      simp
    refine .written ?_ hpending (hcarry.trans hc) (by rw [heq, decorate_eq]) hreads
    exact hserved ▸ Move.lineComment hk

theorem effect_inlined (hk : t.kind = .lineComment) (hp : s.pending ≠ []) :
    Effect o s previous t rest [t] ⟨s.lineComment o t previous, some t, rest⟩ := by
  have hstate : s.lineComment o t previous = { s with pending := s.pending ++ [inlined t] } :=
    lineComment_of_pending hp
  have hcleared : s.cleared.lineComment o t (some foremost) =
      (s.lineComment o t previous).cleared := by
    rw [lineComment_of_pending (s := s.cleared) hp, hstate]
    rfl
  have hends : Visit.endsImport ⟨s, [t], rest⟩ = false :=
    Visit.endsImport_of_isPunct (by simp [Token.isPunct, hk])
  refine .held (hcleared ▸ Move.lineComment hk) ?_ ?_ ?_ (.inl ?_) hends <;> rw [hstate]
  simp

/-- An empty block, which is held if the statement goes on behind it. -/
theorem effect_emptyBlock {next : Token} {rest' : List Token} (hb : t.isPunct ['{'] = true)
    (hn : s.nesting = []) (ha : s.assigned = false) (hc : next.isPunct ['}'] = true) :
    Effect o s previous t (next :: rest') [t, next] ⟨s.emptyBlock o rest'.head?, some next, rest'⟩ := by
  have hm : Move o s previous t (next :: rest') ⟨s.emptyBlock o rest'.head?, some next, rest'⟩ :=
    .emptyBlock rfl hb hn ha hc
  cases hcont : isContinuation rest'.head? with
  | true =>
    have hstate := emptyBlock_of_continued (s := s) (o := o) hcont
    have hcleared : s.cleared.emptyBlock o rest'.head? = (s.emptyBlock o rest'.head?).cleared := by
      rw [hstate, emptyBlock_of_continued hcont]
      rfl
    refine .held (hcleared ▸ Move.emptyBlock rfl hb hn ha hc) ?_ ?_ ?_ (.inr ?_)
      Visit.endsImport_more <;> rw [hstate] <;> simp [State.clearStatement]
  | false =>
    have hstate := emptyBlock_of_ended (s := s) (o := o) hcont
    have hpending : (s.emptyBlock o rest'.head?).pending = [] := pending_emptyBlock s o _
    refine .written ?_ hpending (by rw [hstate, emitMember_carry]; rfl)
      (by rw [hstate, emitMember_eq]; rfl) (hm.readsImport_eq_false rfl hpending Visit.endsImport_more)
    rw [cleared_emptyBlock hcont]
    exact .emptyBlock rfl hb hn ha hc

theorem effect_openBlock (hb : t.isPunct ['{'] = true) (hn : s.nesting = []) (ha : s.assigned = false)
    (hr : ∀ next, rest.head? = some next → next.isPunct ['}'] = false) :
    Effect o s previous t rest [t] ⟨s.openBlock o t.line, some t, rest⟩ := by
  have hm : Move o s previous t rest ⟨s.openBlock o t.line, some t, rest⟩ := .openBlock hb hn ha hr
  have hpending : (s.openBlock o t.line).pending = [] := pending_openBlock s o _
  have hcarried : (s.openBlock o t.line).carry = none :=
    emitMember_carry s.clearStatement o [withBrace s.text ['{']] false
  have himports : (s.openBlock o t.line).imports = s.keptImports := by
    simp only [State.openBlock, emitMember_eq]
    rfl
  refine .written ?_ hpending hcarried himports
    (hm.readsImport_eq_false rfl hpending
      (Visit.endsImport_of_isPunct (isPunct_disjoint hb (by decide))))
  rw [cleared_openBlock]
  exact .openBlock hb hn ha hr

/-- A block that closes: the members of an enumeration are written without the imports. -/
theorem effect_closeBlock {s' : State} (hb : t.isPunct ['}'] = true) (hn : s.nesting = [])
    (hs : s.closeBlock o t.line rest.head? = .ok s') (hcarry : s.pending = [] → s.carry = none) :
    Effect o s previous t rest [t] ⟨s', some t, rest⟩ := by
  have hm : Move o s previous t rest ⟨s', some t, rest⟩ := .closeBlock hb hn hs
  obtain ⟨around, outer, hout, henum, hs'⟩ := closeBlock_eq_ok.1 hs
  have hkind : s.pending = [] ∧ s.carry = none ∨ s.scope.kind = .enum := by
    by_cases hp : s.pending = []
    · exact .inl ⟨hp, hcarry hp⟩
    · exact .inr (henum hp)
  have hpending : s'.pending = [] := by rw [hs', pending_left, pending_settled]
  have hsettled : (s.settled o).carry = none ∧ (s.settled o).imports = s.imports := by
    unfold State.settled
    by_cases hp : s.pending = []
    · rw [if_pos (by simp [hp])]
      exact ⟨hcarry hp, rfl⟩
    · rw [if_neg (by simp [hp]), emitMember_carry, emitMember_eq]
      refine ⟨rfl, keptImports_of_kind (s := s.clearStatement) ?_⟩
      rw [show s.clearStatement.scope = s.scope from rfl, henum hp]
      decide
  have hleft : (s'.carry = none ∨ s'.carry = some ['}']) ∧ s'.imports = s.imports := by
    rw [hs']
    unfold State.left
    split
    · exact ⟨.inr rfl, hsettled.2⟩
    · exact ⟨.inl hsettled.1, hsettled.2⟩
  exact .closed (.closeBlock hb hn (cleared_closeBlock hs)) hb rfl hpending hleft.1 hleft.2 hkind
    (hm.readsImport_eq_false rfl hpending
      (Visit.endsImport_of_isPunct (isPunct_disjoint hb (by decide))))

/-- A statement that ends. -/
theorem effect_statement (hb : t.isPunct [';'] = true) (hn : s.nesting = [])
    (hcont : s.carry ≠ none → isContinuation (s.pending ++ t :: rest).head? = true) :
    Effect o s previous t rest [t]
      ⟨State.endStatement { s with pending := s.pending ++ [t] } o, some t, rest⟩ := by
  have hm : Move o s previous t rest
      ⟨State.endStatement { s with pending := s.pending ++ [t] } o, some t, rest⟩ := .statement hb hn
  by_cases hi : s.scope.kind = .file ∧ startsImport s.pending = true
  · obtain ⟨hfile, hstart⟩ := hi
    have hc : s.carry = none := by
      by_contra hc
      have hword := hcont hc
      cases hp : s.pending with
      | nil =>
        rw [hp] at hstart
        cases hstart
      | cons x xs =>
        rw [hp] at hstart hword
        rw [List.cons_append, List.head?_cons, not_isContinuation_import hstart] at hword
        cases hword
    have hstate := endStatement_of_import (s := { s with pending := s.pending ++ [t] }) (o := o)
      hfile (startsImport_append hstart _)
    refine .imported hb rfl ?_ hc (Visit.endsImport_iff.2 ⟨hfile, hn, hstart, t, rfl, hb⟩)
    rw [hstate]
    simp only [State.text, withCarry, hc]
    rfl
  · have hends : Visit.endsImport ⟨s, [t], rest⟩ = false := by
      refine eq_false_of_ne_true fun he => ?_
      obtain ⟨hfile, -, hstart, -⟩ := Visit.endsImport_iff.1 he
      exact hi ⟨hfile, hstart⟩
    have hmember : s.scope.kind = .file → startsImport (s.pending ++ [t]) = false := by
      intro hfile
      cases hp : s.pending with
      | nil => exact startsImport_of_kind (by simp [kind_of_isPunct hb]) []
      | cons x xs =>
        refine eq_false_of_ne_true fun hstart => hi ⟨hfile, ?_⟩
        rw [hp]
        exact hstart
    have hstate := endStatement_of_member (s := { s with pending := s.pending ++ [t] }) (o := o)
      hmember
    have hpending : (State.endStatement { s with pending := s.pending ++ [t] } o).pending = [] :=
      pending_endStatement _ o
    refine .written ?_ hpending (by rw [hstate, emitMember_carry]; rfl)
      (by rw [hstate, emitMember_eq]; rfl) (hm.readsImport_eq_false rfl hpending hends)
    rw [cleared_endStatement (s := { s with pending := s.pending ++ [t] }) hmember]
    exact .statement hb hn

/-- The effect of a move. -/
theorem Move.effect {p : Progress} {taken : List Token} (hm : Move o s previous t rest p)
    (ht : t :: rest = taken ++ p.rest) (hline : 0 < t.line)
    (hcont : s.carry ≠ none → isContinuation (s.pending ++ t :: rest).head? = true) :
    Effect o s previous t rest taken p := by
  have alone (h : [t] ++ rest = taken ++ rest) : taken = [t] := (List.append_cancel_right h).symm
  have hcarry (hk : t.kind ≠ .word) (hp : s.pending = []) : s.carry = none := by
    by_contra hc
    have hword := hcont hc
    rw [hp] at hword
    exact hk (kind_of_isContinuation hword)
  have hreads := hm.readsImport_eq_false ht
  cases hm with
  | lineComment hk =>
    obtain rfl := alone ht
    by_cases hp : s.pending = []
    · exact effect_lineComment hk hp (hcarry (by simp [hk]) hp) hline
    · exact effect_inlined hk hp
  | blockComment hk hs =>
    obtain rfl := alone ht
    obtain ⟨hp, hc⟩ := State.atStart_iff.1 hs
    have hpending : (s.decorate o (commentLines t.text)).pending = [] := by rw [decorate_eq]; exact hp
    refine .written ?_ hpending (by rw [decorate_eq]; exact hc) (by rw [decorate_eq])
      (hreads hpending (Visit.endsImport_of_isPunct (by simp [Token.isPunct, hk])))
    rw [cleared_decorate]
    exact .blockComment hk hs
  | @decoration name more tail rest' hr hs ha hta =>
    subst hr
    rw [← annotationTail_append hta] at ht
    obtain rfl : t :: name :: tail = taken := List.append_cancel_right ht
    obtain ⟨hp, hc⟩ := State.atStart_iff.1 hs
    have hpending : (s.decorate o [joinTokens (t :: name :: tail)]).pending = [] := by
      rw [decorate_eq]; exact hp
    refine .written ?_ hpending (by rw [decorate_eq]; exact hc) (by rw [decorate_eq])
      (hreads hpending Visit.endsImport_more)
    rw [cleared_decorate]
    exact .decoration rfl hs ha hta
  | @emptyBlock next rest' hr hb hn ha hc =>
    subst hr
    obtain rfl : [t, next] = taken := List.append_cancel_right ht
    exact effect_emptyBlock hb hn ha hc
  | openBlock hb hn ha hr =>
    obtain rfl := alone ht
    exact effect_openBlock hb hn ha hr
  | closeBlock hb hn hs =>
    obtain rfl := alone ht
    exact effect_closeBlock hb hn hs (hcarry (by simp [kind_of_isPunct hb]))
  | statement hb hn =>
    obtain rfl := alone ht
    exact effect_statement hb hn hcont
  | token hl hb ha hopen hclose hend hp =>
    obtain rfl := alone ht
    have hcleared := cleared_pushToken hp
    have hstate := pushToken_eq hp
    refine .held (.token hl hb ha hopen hclose hend hcleared) (pushToken_out hp) ?_ ?_ (.inl ?_)
      (Visit.endsImport_alone hend) <;> rw [hstate]
    simp

end JpaScaffold.Java.Layout
