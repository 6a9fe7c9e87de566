import JpaScaffold.Proofs.Layout.Positions

/-!
# The iterations of the loop

What holds of the open blocks, of the statement and of a closed block that the next line continues
whenever the loop begins a pass. One move of a layout preserves it, so it holds at every pass. The
loop only goes forward, and it does what the layout does; so it comes to its end, and nothing but a
wrong source stops it.
-/
namespace JpaScaffold.Java.Layout

variable {o : Options} {tokens rest : List Token} {t : Token} {s s' : State} {m : Machine}
  {current : Option Token} {i : Nat}

/-- A file lies at the bottom of the stack and nowhere else. -/
def OnFile (kinds : List ScopeKind) : Prop := ∃ inner, kinds = .file :: inner ∧ .file ∉ inner

/-- What holds of the loop in front of the token `current`. -/
structure Machine.Sound (m : Machine) (current : Option Token) : Prop where
  scopes : OnFile (m.scopes.map Scope.kind)
  /-- Brackets are open, and an assignment was read, only inside a statement. -/
  pending : m.nesting ≠ [] ∨ m.assigned = true → m.pending ≠ []
  /-- A closed block is held back only for what continues it. -/
  carry : m.carry ≠ none → m.pending ≠ [] ∨ isContinuation current = true

/-- The passes that the loop makes over the tokens, with its position and its state. -/
inductive Arrives (o : Options) (tokens : List Token) : Nat → Machine → Prop
  | start : Arrives o tokens 0 {}
  | pass {i i' : Nat} {m m' : Machine} (h : Arrives o tokens i m) (hi : i < tokens.length)
      (hm : iterate o tokens i m = .ok (i', m')) : Arrives o tokens i' m'

/-! ## One move -/

/-- The kinds of the open blocks, the innermost one last. -/
def State.kinds (s : State) : List ScopeKind := s.machine.scopes.map Scope.kind

theorem kinds_eq (s : State) :
    s.kinds = (s.outer.map Scope.kind).reverse ++ [s.scope.kind] := by
  simp [State.kinds, State.machine]

@[simp] theorem kinds_emitMember (s : State) (o : Options) (lines : List (List Char)) (field : Bool) :
    (s.emitMember o lines field).kinds = s.kinds := by
  rw [kinds_eq, kinds_eq, emitMember_eq]

@[simp] theorem kinds_decorate (s : State) (o : Options) (lines : List (List Char)) :
    (s.decorate o lines).kinds = s.kinds := by
  rw [kinds_eq, kinds_eq, decorate_eq]

namespace Machine.Sound

/-- What follows between two statements: the statement is empty, so nothing is open in it. -/
theorem idle (h : m.Sound current) (hp : m.pending = []) : m.nesting = [] ∧ m.assigned = false := by
  constructor
  · by_contra hn
    exact h.pending (.inl hn) hp
  · by_contra ha
    exact h.pending (.inr (eq_true_of_ne_false ha)) hp

/-- A block that is closed is not held back in front of a token that does not continue it. -/
theorem carry_eq_none (h : m.Sound current) (hp : m.pending = [])
    (hc : isContinuation current = false) : m.carry = none := by
  by_contra hne
  rcases h.carry hne with hpending | hcontinues
  · exact hpending hp
  · rw [hc] at hcontinues
    cases hcontinues

/-- The statement was written, and at most a block is held back for the token that continues it. -/
theorem of_written (hk : OnFile s.kinds)
    (hn : s.nesting = []) (ha : s.assigned = false)
    (hc : s.carry ≠ none → isContinuation current = true) : s.machine.Sound current where
  scopes := hk
  pending := by
    rintro (h | h)
    · exact absurd hn h
    · exact absurd (ha.symm.trans h) (by decide)
  carry h := .inr (hc h)

theorem of_begun (hk : OnFile s.kinds)
    (hp : s.pending ≠ []) : s.machine.Sound current where
  scopes := hk
  pending _ := hp
  carry _ := .inl hp

end Machine.Sound

theorem isContinuation_of_kind (h : t.kind ≠ .word) : isContinuation (some t) = false := by
  by_contra hc
  exact h (kind_of_isContinuation (eq_true_of_ne_false hc))

theorem sound_decorate (hs : s.machine.Sound current) (hp : s.pending = []) (hc : s.carry = none)
    (o : Options) (lines : List (List Char)) (next : Option Token) :
    (s.decorate o lines).machine.Sound next := by
  obtain ⟨hn, ha⟩ := hs.idle hp
  refine .of_written (by rw [kinds_decorate]; exact hs.scopes) ?_ ?_ ?_
  · rw [decorate_eq]
    exact hn
  · rw [decorate_eq]
    exact ha
  · rw [decorate_eq]
    exact fun h => absurd hc h

theorem sound_emitMember (hk : OnFile s.kinds)
    (hn : s.nesting = []) (o : Options) (lines : List (List Char)) (field : Bool)
    (next : Option Token) :
    (s.clearStatement.emitMember o lines field).machine.Sound next := by
  refine .of_written (by rw [kinds_emitMember]; exact hk) ?_ ?_ ?_
  · rw [emitMember_eq]
    exact hn
  · rw [emitMember_eq]
    rfl
  · rw [emitMember_eq]
    exact fun h => absurd rfl h

theorem sound_lineComment (hs : s.machine.Sound (some t)) (hk : t.kind = .lineComment)
    (o : Options) (previous next : Option Token) :
    (s.lineComment o t previous).machine.Sound next := by
  by_cases hp : s.pending = []
  · have hc : s.carry = none :=
      hs.carry_eq_none hp (isContinuation_of_kind (by simp [hk]))
    obtain ⟨hn, ha⟩ := hs.idle hp
    rw [lineComment_eq, if_neg (by simp [hp])]
    split
    · exact .of_written hs.scopes hn ha fun h => absurd hc h
    split
    · exact .of_written hs.scopes hn ha fun h => absurd hc h
    · exact sound_decorate hs hp hc o _ next
  · rw [lineComment_eq, if_pos (by simpa using hp)]
    exact .of_begun hs.scopes (by simp)

theorem sound_emptyBlock (hs : s.machine.Sound current) (hn : s.nesting = []) (o : Options)
    (next : Option Token) : (s.emptyBlock o next).machine.Sound next := by
  unfold State.emptyBlock
  split
  · next hnext => exact .of_written hs.scopes hn rfl fun _ => hnext
  · exact sound_emitMember hs.scopes hn o _ false next

theorem sound_openBlock (hs : s.machine.Sound current) (hn : s.nesting = []) (o : Options)
    (line : Nat) (next : Option Token) : (s.openBlock o line).machine.Sound next := by
  obtain ⟨inner, hkinds, hfile⟩ := hs.scopes
  have hopened : (s.openBlock o line).kinds = s.kinds ++ [blockKind s.pending] := by
    rw [State.openBlock, kinds_eq, kinds_eq, emitMember_eq]
    simp [State.clearStatement]
  refine .of_written ⟨inner ++ [blockKind s.pending], ?_, ?_⟩ ?_ ?_ ?_
  · rw [hopened, State.kinds, hkinds]
    rfl
  · simp [hfile, (blockKind_ne_file s.pending).symm]
  · rw [State.openBlock, emitMember_eq]
    exact hn
  · rw [State.openBlock, emitMember_eq]
    rfl
  · rw [State.openBlock, emitMember_eq]
    exact fun h => absurd rfl h

theorem sound_settled (hs : s.machine.Sound current) (hn : s.nesting = [])
    (hc : isContinuation current = false) (o : Options) (next : Option Token) :
    (s.settled o).machine.Sound next ∧ (s.settled o).pending = [] ∧ (s.settled o).kinds = s.kinds := by
  unfold State.settled
  split
  · next hp =>
    have hp : s.pending = [] := List.isEmpty_iff.1 hp
    obtain ⟨-, ha⟩ := hs.idle hp
    exact ⟨.of_written hs.scopes hn ha fun h => absurd (hs.carry_eq_none hp hc) h, hp, rfl⟩
  · refine ⟨sound_emitMember hs.scopes hn o _ true next, by simp [State.clearStatement], ?_⟩
    rw [kinds_emitMember]
    rfl

theorem kinds_left {around : Scope} {outer : List Scope} (hout : s.outer = around :: outer)
    (h : OnFile s.kinds) (o : Options) (next : Option Token) :
    OnFile (s.left o around outer next).kinds := by
  obtain ⟨inner, hkinds, hfile⟩ := h
  have hleft : (s.left o around outer next).kinds = s.kinds.dropLast := by
    rw [kinds_eq, kinds_eq, hout, State.left]
    split
    · simp
    · simp [State.pushLine]
  have hinner : inner ≠ [] := by
    rintro rfl
    have hlen := congrArg List.length hkinds
    rw [kinds_eq, hout] at hlen
    simp at hlen
  refine ⟨inner.dropLast, ?_, fun hmem => hfile (List.mem_of_mem_dropLast hmem)⟩
  rw [hleft, hkinds, List.dropLast_cons_of_ne_nil hinner]

theorem sound_closeBlock (hs : s.machine.Sound (some t)) (hn : s.nesting = [])
    (ht : t.isPunct ['}'] = true) {line : Nat} {next : Option Token}
    (h : s.closeBlock o line next = .ok s') : s'.machine.Sound next := by
  obtain ⟨around, outer, hout, -, rfl⟩ := closeBlock_eq_ok.1 h
  have hkind : t.kind ≠ .word := by simp [(Token.isPunct_iff.1 ht).1]
  obtain ⟨hset, hp, hkinds⟩ := sound_settled hs hn (isContinuation_of_kind hkind) o none
  obtain ⟨hn', ha'⟩ := hset.idle hp
  have hc' : (s.settled o).carry = none := hset.carry_eq_none hp rfl
  have hout' : (s.settled o).outer = around :: outer := by rw [settled_outer, hout]
  have hfile : OnFile (s.settled o).kinds := by
    rw [hkinds]
    exact hs.scopes
  have hk := kinds_left hout' hfile o next
  revert hk
  rw [State.left]
  split
  · next hnext =>
    intro hk
    exact .of_written hk hn' ha' fun _ => hnext
  · intro hk
    exact .of_written hk hn' ha' fun h => absurd hc' h

theorem sound_endStatement (hk : OnFile s.kinds)
    (hn : s.nesting = []) (o : Options) (next : Option Token) :
    (s.endStatement o).machine.Sound next := by
  rw [endStatement_eq]
  split
  · exact .of_written hk hn rfl fun h => absurd rfl h
  · exact sound_emitMember hk hn o _ _ next

theorem sound_pushToken (hs : s.machine.Sound current) (h : s.pushToken t = .ok s')
    (next : Option Token) : s'.machine.Sound next := by
  have hpushed : s'.kinds = s.kinds ∧ s'.pending = s.pending ++ [t] := by
    unfold State.pushToken at h
    split at h
    · cases h
      exact ⟨rfl, rfl⟩
    · split at h
      · split at h
        · cases h
          exact ⟨rfl, rfl⟩
        · cases h
      · cases h
    · cases h
      exact ⟨rfl, rfl⟩
  exact .of_begun (by rw [hpushed.1]; exact hs.scopes) (by rw [hpushed.2]; simp)

theorem sound_of_move {previous : Option Token} {p : Progress} (h : Move o s previous t rest p)
    (hs : s.machine.Sound (some t)) : p.state.machine.Sound p.rest.head? := by
  cases h with
  | lineComment hk => exact sound_lineComment hs hk o previous _
  | blockComment _ hstart =>
    obtain ⟨hp, hc⟩ := State.atStart_iff.1 hstart
    exact sound_decorate hs hp hc o _ _
  | decoration _ hstart _ _ =>
    obtain ⟨hp, hc⟩ := State.atStart_iff.1 hstart
    exact sound_decorate hs hp hc o _ _
  | emptyBlock _ _ hn _ _ => exact sound_emptyBlock hs hn o _
  | openBlock _ hn _ _ => exact sound_openBlock hs hn o _ _
  | closeBlock ht hn hclose => exact sound_closeBlock hs hn ht hclose
  | statement _ hn =>
    have hk : OnFile { s with pending := s.pending ++ [t] }.kinds := hs.scopes
    exact sound_endStatement hk hn o _
  | token _ _ _ _ _ _ hpush => exact sound_pushToken hs hpush _

/-! ## The whole loop -/

theorem passed_eq_ok {e : Except SourceError Progress} {next : Nat × Machine} :
    passed tokens e = .ok next ↔ ∃ p, e = .ok p ∧ p.onStack tokens = next := by
  rw [passed, mapError_eq_ok, map_eq_ok]

/-- A step leaves the tokens behind those that it takes, and the loop stands between them. -/
theorem onStack_of_move {previous : Option Token} {p : Progress} (h : Move o s previous t rest p)
    (before : List Token) :
    ∃ taken, taken ≠ [] ∧ before ++ t :: rest = before ++ taken ++ p.rest ∧
      p.previous = (before ++ taken).getLast? ∧
      p.onStack (before ++ t :: rest) = ((before ++ taken).length, p.state.machine) := by
  obtain ⟨taken, htaken, hprevious, hne⟩ := exists_taken h
  refine ⟨taken, hne, by rw [htaken, List.append_assoc], ?_, ?_⟩
  · rw [hprevious, List.getLast?_append_of_ne_nil before hne]
  · rw [htaken, Progress.onStack, ← List.append_assoc, List.length_append, Nat.add_sub_cancel]

theorem sound_start (current : Option Token) : (State.machine {}).Sound current :=
  .of_written ⟨[], rfl, List.not_mem_nil⟩ rfl rfl fun h => absurd rfl h

theorem sound_of_arrives (h : Arrives o tokens i m) :
    ∃ (before rest : List Token) (s : State), tokens = before ++ rest ∧ i = before.length ∧ m = s.machine ∧
      s.machine.Sound rest.head? := by
  induction h with
  | start => exact ⟨[], tokens, {}, rfl, rfl, rfl, sound_start _⟩
  | @pass i i' m m' _ hi hm ih =>
    obtain ⟨before, rest, s, rfl, rfl, rfl, hs⟩ := ih
    cases rest with
    | nil => simp at hi
    | cons t rest =>
      rw [iterate_eq] at hm
      obtain ⟨p, hp, hnext⟩ := passed_eq_ok.1 hm
      have hmove := move_of_step hp
      obtain ⟨taken, -, hsplit, -, hstack⟩ := onStack_of_move hmove before
      rw [hstack] at hnext
      cases hnext
      exact ⟨before ++ taken, p.rest, p.state, hsplit, rfl, rfl, sound_of_move hmove hs⟩

/-- With a pass for each token that is left, the loop is a run of the layout. -/
theorem loop_eq (o : Options) (n : Nat) (s : State) (before rest : List Token)
    (hn : rest.length ≤ n) :
    loop o (before ++ rest) n before.length s.machine = onStack (run o s before.getLast? rest) := by
  induction n generalizing s before rest with
  | zero =>
    obtain rfl : rest = [] := List.length_eq_zero_iff.1 (by omega)
    rw [loop, if_neg (by simp), run]
    rfl
  | succ n ih =>
    cases rest with
    | nil =>
      rw [loop, if_neg (by simp), run]
      rfl
    | cons t rest =>
      rw [loop, if_pos (by simp), iterate_eq, run]
      split
      · next e he =>
        rw [he]
        rfl
      · next p hp =>
        obtain ⟨taken, -, hsplit, hprevious, hstack⟩ := onStack_of_move (move_of_step hp) before
        have hrest : p.rest.length ≤ n := by
          have hleft := step_rest hp
          rw [List.length_cons] at hn
          omega
        rw [passed_eq_ok.2 ⟨p, hp, hstack⟩, ok_bind, hsplit, hprevious]
        exact ih p.state (before ++ taken) p.rest hrest

theorem exists_split_of_getElem? (h : tokens[i]? = some t) :
    tokens.take i ++ t :: tokens.drop (i + 1) = tokens ∧ (tokens.take i).length = i := by
  obtain ⟨hi, ht⟩ := List.getElem?_eq_some_iff.1 h
  refine ⟨?_, List.length_take_of_le (Nat.le_of_lt hi)⟩
  rw [← ht, List.getElem_cons_drop, List.take_append_drop]

/-- An annotation ends behind its first word, and not behind the tokens. -/
theorem annotationEnd_bounds (ht : tokens[i]? = some t)
    (ha : startsAnnotation t (tokens.drop (i + 1)) = true) :
    (∃ j, annotationEnd tokens i = .ok j ∧ i + 1 < j ∧ j ≤ tokens.length) ∨
      ∃ fault, annotationEnd tokens i = .error (.source fault) := by
  obtain ⟨hsplit, hlen⟩ := exists_split_of_getElem? ht
  revert ha hsplit hlen
  generalize tokens.take i = before
  generalize tokens.drop (i + 1) = rest
  rintro ha rfl rfl
  cases rest with
  | nil => cases ha
  | cons name more =>
    rw [annotationEnd_eq]
    cases htail : annotationTail more with
    | none => exact .inr ⟨_, rfl⟩
    | some taken =>
      obtain ⟨tail, rest⟩ := taken
      refine .inl ⟨_, rfl, by omega, ?_⟩
      rw [← annotationTail_append htail]
      simp only [List.length_append, List.length_cons]
      omega

/-- What holds whenever the loop stands at position `i` in the state `m`. -/
structure Safe (o : Options) (tokens : List Token) (i : Nat) (m : Machine) : Prop where
  position : i ≤ tokens.length
  sound : m.Sound tokens[i]?
  /-- The state is one of the layout, and a pass of the loop is a step from it. -/
  step : ∃ s : State, m = s.machine ∧ ∀ t, tokens[i]? = some t →
    iterate o tokens i m =
      passed tokens (step o s (tokens.take i).getLast? t (tokens.drop (i + 1)))
  /-- The loop goes forward, unless the source is wrong. -/
  pass : i < tokens.length →
    (∃ i' m', iterate o tokens i m = .ok (i', m') ∧ i < i' ∧ i' ≤ tokens.length) ∨
      ∃ fault, iterate o tokens i m = .error (.source fault)
  /-- At the end an empty statement leaves no bracket open and no block held back. -/
  idle : i = tokens.length → m.pending = [] → m.nesting = [] ∧ m.carry = none

theorem safe_of_arrives (h : Arrives o tokens i m) : Safe o tokens i m := by
  obtain ⟨before, rest, s, rfl, rfl, rfl, hs⟩ := sound_of_arrives h
  have hcurrent : (before ++ rest)[before.length]? = rest.head? := by
    rw [← List.head?_drop, List.drop_left]
  refine ⟨by simp, by rw [hcurrent]; exact hs, ⟨s, rfl, fun t ht => ?_⟩, fun hi => ?_, ?_⟩
  · cases rest with
    | nil => simp at ht
    | cons u rest =>
      rw [hcurrent] at ht
      cases ht
      rw [iterate_eq, List.take_left, ← List.drop_drop, List.drop_left]
      rfl
  · cases rest with
    | nil => simp at hi
    | cons t rest =>
      rw [iterate_eq]
      cases hstep : Layout.step o s before.getLast? t rest with
      | error fault => exact .inr ⟨fault, rfl⟩
      | ok p =>
        obtain ⟨taken, hne, hsplit, -, hstack⟩ := onStack_of_move (move_of_step hstep) before
        have hpos := List.length_pos_iff.2 hne
        refine .inl ⟨_, _, passed_eq_ok.2 ⟨p, rfl, hstack⟩, ?_, ?_⟩
        · rw [List.length_append]
          omega
        · rw [hsplit]
          exact (List.prefix_append _ _).length_le
  · intro hi hp
    obtain rfl : rest = [] := List.length_eq_zero_iff.1 (by simpa using hi)
    exact ⟨(hs.idle hp).1, hs.carry_eq_none hp rfl⟩

/-- Whenever the loop begins a pass, the invariants hold, and the pass goes forward or finds the
source wrong. Annotations end where tokens are. So the loop makes at most one pass for each token,
no access fails, and what it returns is what the layout returns. -/
theorem loop_safe (o : Options) (tokens : List Token) :
    (∀ i m, Arrives o tokens i m → Safe o tokens i m) ∧
      (∀ i t, tokens[i]? = some t → startsAnnotation t (tokens.drop (i + 1)) = true →
        (∃ j, annotationEnd tokens i = .ok j ∧ i + 1 < j ∧ j ≤ tokens.length) ∨
          ∃ fault, annotationEnd tokens i = .error (.source fault)) ∧
      (loop o tokens tokens.length 0 {} >>= fun m => m.finish o) =
        (layoutTokens o tokens).mapError .source := by
  refine ⟨fun i m h => safe_of_arrives h, fun i t ht ha => annotationEnd_bounds ht ha, ?_⟩
  have hloop : loop o tokens tokens.length 0 {} = onStack (run o {} none tokens) :=
    loop_eq o tokens.length {} [] tokens (Nat.le_refl _)
  rw [hloop, layoutTokens]
  cases run o {} none tokens with
  | error fault => rfl
  | ok s => exact machine_finish s o

/-- An annotation with arguments, and an empty block that the next line continues. -/
def annotatedBlock : List Token :=
  [⟨.punct, ['@'], false, 1⟩, ⟨.word, ['A'], false, 1⟩, ⟨.punct, ['('], false, 1⟩,
    ⟨.punct, ['('], false, 1⟩, ⟨.punct, [')'], false, 1⟩, ⟨.punct, [')'], false, 1⟩,
    ⟨.punct, ['{'], true, 1⟩, ⟨.punct, ['}'], false, 1⟩, ⟨.word, "else".toList, true, 1⟩,
    ⟨.punct, [';'], false, 1⟩]

/-- Behind the annotation and the block the loop stands in front of `else`. -/
theorem loop_safe_of_annotatedBlock :
    ∃ m, Safe ⟨4, 100⟩ annotatedBlock 8 m ∧ m.carry = some ['{', '}'] ∧
      ∃ j, annotationEnd annotatedBlock 0 = .ok j ∧ 1 < j ∧ j ≤ 10 := by
  obtain ⟨hsafe, hannotation, -⟩ := loop_safe ⟨4, 100⟩ annotatedBlock
  have hfirst : Arrives ⟨4, 100⟩ annotatedBlock 6 _ := .pass .start (by decide) rfl
  have hsecond : Arrives ⟨4, 100⟩ annotatedBlock 8 _ := .pass hfirst (by decide) rfl
  refine ⟨_, hsafe 8 _ hsecond, rfl, ?_⟩
  rcases hannotation 0 _ rfl rfl with hend | ⟨fault, hfault⟩
  · exact hend
  · cases hfault

end JpaScaffold.Java.Layout
