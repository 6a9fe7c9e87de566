import JpaScaffold.Proofs.Layout.Emission

/-!
# Written text stays

A run never takes back what it has written. The lines grow at the end: by further lines, or by a
blank and a comment on the last line. The text of a finished layout therefore starts with the text
of every state that the run went through.
-/
namespace JpaScaffold.Java.Layout

/-- The text `b` starts with the text `a`, and nothing binds to `a` there. -/
def Extends (a b : List Char) : Prop := ∃ more, b = a ++ more ∧ AtGap more

theorem Extends.refl (a : List Char) : Extends a a :=
  ⟨[], (List.append_nil a).symm, atLineEnd_nil.atGap⟩

theorem Extends.trans {a b c : List Char} (hab : Extends a b) (hbc : Extends b c) :
    Extends a c := by
  obtain ⟨more, rfl, hm⟩ := hab
  obtain ⟨more', rfl, hm'⟩ := hbc
  refine ⟨more ++ more', by rw [List.append_assoc], ?_⟩
  cases more with
  | nil => exact hm'
  | cons d more => exact atGap_cons (hm d rfl) _

theorem extends_page_append {lines : List (List Char)} (h : lines ≠ []) (more : List (List Char)) :
    Extends (page lines) (page (lines ++ more)) := by
  cases more with
  | nil =>
    rw [List.append_nil]
    exact .refl _
  | cons line more =>
    exact ⟨_, page_append h (by simp), atGap_cons (by decide) _⟩

/-- The lines `lines'` are the lines `lines`, grown at the end. -/
def Grows (lines lines' : List (List Char)) : Prop :=
  lines ≠ [] → lines' ≠ [] ∧ Extends (page lines) (page lines')

theorem Grows.refl (lines : List (List Char)) : Grows lines lines := fun h => ⟨h, .refl _⟩

theorem Grows.trans {a b c : List (List Char)} (hab : Grows a b) (hbc : Grows b c) : Grows a c :=
  fun h => ⟨(hbc (hab h).1).1, (hab h).2.trans (hbc (hab h).1).2⟩

theorem grows_append (lines more : List (List Char)) : Grows lines (lines ++ more) :=
  fun h => ⟨by simp [h], extends_page_append h more⟩

theorem grows_appendToLast (text : List Char) (lines : List (List Char)) :
    Grows lines (appendToLast (' ' :: text) lines) := by
  intro h
  have hp := page_appendToLast h (' ' :: text)
  refine ⟨?_, _, hp, atGap_cons (by decide) _⟩
  cases lines with
  | nil => exact absurd rfl h
  | cons line lines => cases lines <;> simp [appendToLast]

variable {o : Options} {s : State}

theorem grows_decorate (lines : List (List Char)) : Grows s.out (s.decorate o lines).out := by
  rw [decorate_eq, List.append_assoc]
  exact grows_append _ _

theorem grows_emitMember (lines : List (List Char)) (field : Bool) :
    Grows s.out (s.clearStatement.emitMember o lines field).out := by
  rw [emitMember_out, List.append_assoc]
  exact grows_append _ _

theorem grows_lineComment (t : Token) (previous : Option Token) :
    Grows s.out (s.lineComment o t previous).out := by
  rw [lineComment_eq]
  split
  · exact .refl _
  · split
    · exact .refl _
    · split
      · exact grows_appendToLast _ _
      · exact grows_decorate _

theorem grows_endStatement : Grows s.out (s.endStatement o).out := by
  rw [endStatement_eq]
  split
  · exact .refl _
  · exact grows_emitMember _ _

theorem grows_emptyBlock (next : Option Token) : Grows s.out (s.emptyBlock o next).out := by
  unfold State.emptyBlock
  split
  · exact .refl _
  · exact grows_emitMember _ _

theorem grows_settled : Grows s.out (s.settled o).out := by
  unfold State.settled
  split
  · exact .refl _
  · exact grows_emitMember _ _

theorem grows_left (around : Scope) (outer : List Scope) (next : Option Token) :
    Grows s.out (s.left o around outer next).out := by
  unfold State.left
  simp only
  split
  · exact .refl _
  · exact grows_append _ _

theorem pushToken_out {s' : State} {t : Token} (h : s.pushToken t = .ok s') : s'.out = s.out := by
  unfold State.pushToken at h
  split at h
  · cases h; rfl
  · split at h
    · split at h
      · cases h; rfl
      · cases h
    · cases h
  · cases h; rfl

theorem Move.grows {previous : Option Token} {t : Token} {rest : List Token} {p : Progress}
    (h : Move o s previous t rest p) : Grows s.out p.state.out := by
  cases h with
  | lineComment => exact grows_lineComment t previous
  | blockComment => exact grows_decorate _
  | decoration => exact grows_decorate _
  | emptyBlock => exact grows_emptyBlock _
  | openBlock => exact grows_emitMember _ _
  | closeBlock _ _ hs =>
    obtain ⟨around, outer, -, -, rfl⟩ := closeBlock_eq_ok.1 hs
    exact grows_settled.trans (grows_left _ _ _)
  | statement => exact grows_endStatement (s := { s with pending := s.pending ++ [t] })
  | token _ _ _ _ _ _ hp =>
    rw [pushToken_out hp]
    exact .refl _

theorem Trace.grows {previous : Option Token} {ts : List Token} {s' : State}
    (h : Trace o s previous ts s') : Grows s.out s'.out := by
  induction h with
  | nil => exact .refl _
  | cons h _ ih => exact h.grows.trans ih

def State.finished (s : State) (o : Options) : List (List Char) :=
  let carried := { s with out := s.out ++ s.carry.toList.map (List.replicate (s.indent o) ' ' ++ ·) }
  carried.out ++ carried.importLines

theorem finished_lines (s : State) (o : Options) :
    unlines (match s.carry with
      | some closed => { s with carry := none }.pushLine o closed
      | none => s).flushImports.out = unlines (s.finished o) := by
  unfold State.finished
  cases hc : s.carry with
  | none => simp [flushImports_eq, State.importLines]
  | some closed => simp [flushImports_eq, State.importLines, State.pushLine, State.indent]

theorem finish_eq_ok {text : List Char} :
    finish o s = .ok text ↔
      s.pending = [] ∧ s.nesting = [] ∧ s.outer = [] ∧ text = unlines (s.finished o) := by
  unfold finish
  constructor
  · intro h
    split at h
    · cases h
    · next hp =>
      split at h
      · cases h
      · cases h
      · next hn ho =>
        cases h
        exact ⟨by simpa using hp, hn, ho, finished_lines s o⟩
  · rintro ⟨hp, hn, ho, rfl⟩
    rw [← finished_lines]
    split
    · next hp' => simp [hp] at hp'
    · split
      · next hn' =>
        rw [hn] at hn'
        cases hn'
      · next ho' =>
        rw [ho] at ho'
        cases ho'
      · rfl

/-- A text is laid out if its tokens are read and nothing is left open. -/
theorem format_eq_ok {source text : List Char} :
    format o source = .ok text ↔
      ∃ ts s', tokenize source = .ok ts ∧ Trace o {} none ts s' ∧ finish o s' = .ok text := by
  unfold format layoutTokens
  constructor
  · intro h
    cases ht : tokenize source with
    | error e =>
      rw [ht] at h
      cases h
    | ok ts =>
      rw [ht] at h
      change (run o {} none ts).bind (finish o) = .ok text at h
      cases hr : run o {} none ts with
      | error e =>
        rw [hr] at h
        cases h
      | ok s' =>
        rw [hr] at h
        exact ⟨ts, s', rfl, trace_of_run hr, h⟩
  · rintro ⟨ts, s', ht, htrace, hf⟩
    rw [ht]
    change (run o {} none ts).bind (finish o) = .ok text
    rw [run_of_trace htrace]
    exact hf

theorem extends_unlines {lines : List (List Char)} (h : lines ≠ []) :
    Extends (page lines) (unlines lines) :=
  ⟨['\n'], unlines_eq_page h, atGap_cons (by decide) _⟩

theorem extends_finish {text : List Char} (h : finish o s = .ok text) (hne : s.out ≠ []) :
    Extends (page s.out) text := by
  obtain ⟨-, -, -, rfl⟩ := finish_eq_ok.1 h
  obtain ⟨hne', hext⟩ := ((grows_append s.out _).trans (grows_append _ _)) hne
  exact hext.trans (extends_unlines hne')

theorem Trace.extends_finish {previous : Option Token} {ts : List Token} {s' : State}
    {text : List Char} (ht : Trace o s previous ts s') (hf : finish o s' = .ok text)
    (hne : s.out ≠ []) : Extends (page s.out) text :=
  (ht.grows hne).2.trans (Layout.extends_finish hf (ht.grows hne).1)

end JpaScaffold.Java.Layout
