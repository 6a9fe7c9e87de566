import JpaScaffold.Proofs.Layout.Rereading

/-!
# Moves are made again

What a move writes is read again by the same move: the element that was written in one state is
written in the state that its own text leads to, on the same lines.
-/
namespace JpaScaffold.Java.Layout

variable {o : Options} {s : State} {t : Token} {rest : List Token}

theorem frontLines_reopened (s : State) (field : Bool) :
    s.reopened.frontLines field = s.frontLines field := by
  have hscope : s.reopened.scope.inElement = s.scope.inElement := rfl
  have hkind : s.reopened.scope.kind = s.scope.kind := rfl
  have hafter : s.reopened.scope.afterField = s.scope.afterField := rfl
  have hout : s.reopened.out = s.out := rfl
  have himports : s.reopened.imports = s.dueImports := rfl
  unfold State.frontLines
  rw [hscope]
  cases hi : s.scope.inElement with
  | true => rfl
  | false =>
    unfold State.openingLines
    rw [hkind, hafter, hout]
    cases hk : s.scope.kind with
    | file =>
      have hdue : s.dueImports = sortedImports s.imports := if_pos ⟨hk, hi⟩
      unfold State.importLines
      rw [hout, himports, hdue]
      by_cases hempty : s.imports = []
      · simp [hempty]
      · simp [hempty, sortedImports_ne_nil hempty]
    | type => rfl
    | enum => rfl
    | code => rfl

theorem keptImports_reopened (s : State) : s.reopened.keptImports = [] := by
  have hscope : s.reopened.scope.inElement = s.scope.inElement := rfl
  have hkind : s.reopened.scope.kind = s.scope.kind := rfl
  have himports : s.reopened.imports = s.dueImports := rfl
  unfold State.keptImports
  rw [hscope, hkind, himports]
  split
  · rfl
  · next h => exact if_neg h

theorem bare_emitMember (lines : List (List Char)) (field : Bool) :
    (s.emitMember o lines field).bare = s.reopened.emitMember o lines field := by
  rw [emitMember_eq, emitMember_eq, frontLines_reopened, keptImports_reopened]
  simp [State.bare, State.reopened, State.setIn, State.indent, Scope.erased]

theorem bare_decorate (lines : List (List Char)) :
    (s.decorate o lines).bare = s.reopened.decorate o lines := by
  rw [decorate_eq, decorate_eq, frontLines_reopened, keptImports_reopened]
  simp [State.bare, State.reopened, State.setIn, State.indent, Scope.erased]

theorem Nested.of_kind {c c' : Scope} {outer : List Scope} (h : Nested c outer)
    (hk : c'.kind = c.kind) : Nested c' outer := by
  cases outer with
  | nil => exact hk.trans h
  | cons around outer => exact ⟨hk ▸ h.1, h.2⟩

theorem mem_imports_of_keptImports {line : List Char} (h : line ∈ s.keptImports) :
    line ∈ s.imports := by
  unfold State.keptImports at h
  split at h
  · cases h
  · exact h

theorem reread_of_written (hi : Idle s) (hc : s.carry = none) (hl : Legible rest)
    (hk : NoLineComment rest) (himports : ∀ line ∈ s.imports, ImportLine o line)
    (hn : Nested s.scope s.outer) (hw : Written o s rest) : Reread o s rest where
  legible := by rwa [hi.pending]
  plain := by rwa [hi.pending]
  held := by
    rw [hi.pending, hi.nesting, hi.assigned]
    exact .nil
  start h := absurd hi.pending h
  continued h := absurd hc h
  imports := himports
  nested := hn
  written := hw

theorem exists_concat_of_contents {ps qs : List Token} (h : SameContents (ps ++ [t]) qs) :
    ∃ us u, qs = us ++ [u] ∧ SameContents ps us ∧ u.content = t.content := by
  rw [SameContents, List.map_append, List.map_eq_append_iff] at h
  obtain ⟨us, vs, rfl, hus, hvs⟩ := h
  obtain ⟨u, hu, rfl⟩ : ∃ u, u.content = t.content ∧ vs = [u] := by
    simpa [List.map_eq_cons_iff, and_comm] using hvs
  exact ⟨us, u, rfl, hus, hu⟩

theorem line_respaced (s : State) (o : Options) : ∀ t ∈ s.respaced o, t.line = 0 := by
  intro t ht
  rcases List.mem_append.1 ht with ht | ht
  · exact line_leading _ t ht
  · obtain ⟨l, hl, ht⟩ := List.mem_flatten.1 ht
    obtain ⟨p, -, rfl⟩ := List.mem_map.1 hl
    exact line_leading _ t ht

/-- The tokens of the statement that is being read are held again, whatever their blanks. -/
theorem Reread.held_again {ps : List Token} (h : Reread o s rest) (hn : s.nesting = [])
    (hc : SameContents s.pending ps) : Held s.reopened.carry.isNone ps [] s.assigned := by
  have hheld := h.held
  rw [hn] at hheld
  exact hheld.of_contents hc

/-- They do not start an annotation. -/
theorem Reread.start_again {ps b : List Token} {t' : Token} (h : Reread o s (t :: rest))
    (hc : SameContents s.pending ps) (ht : t'.content = t.content) :
    ps ≠ [] → PlainStart s.reopened.carry.isNone (ps ++ t' :: b) := by
  intro hps hfresh u us hu
  cases hp : s.pending with
  | nil =>
    rw [hp] at hc
    exact absurd (sameContents_nil hc) hps
  | cons p qs =>
    have hplain := h.start (by simp [hp]) hfresh
    rw [hp] at hc hplain
    obtain ⟨q, qs', rfl, hq, hqs⟩ := sameContents_cons hc
    obtain ⟨rfl, rfl⟩ := List.cons.inj hu
    have hold := hplain p (qs ++ t :: rest) rfl
    cases qs with
    | nil =>
      obtain rfl := sameContents_nil hqs
      have hnew : startsAnnotation q [t'] = startsAnnotation p [t] :=
        startsAnnotation_of_contents hq (by simp [SameContents, ht])
      exact hnew.trans hold
    | cons r qs =>
      obtain ⟨r', qs', rfl, hr, -⟩ := sameContents_cons hqs
      have hnew : startsAnnotation q [r'] = startsAnnotation p [r] :=
        startsAnnotation_of_contents hq (by simp [SameContents, hr])
      exact hnew.trans hold

/-- The statement read so far, the token `t` and the tokens `more` are read by one move. -/
theorem Reread.run_of_move {us vs ps more b : List Token} {t' : Token} {X : State}
    {previous : Option Token} (h : Reread o s (t :: rest)) (hr : Resumed o s t us vs)
    (hn : s.nesting = []) (hc : SameContents (s.pending ++ [t]) (ps ++ [t']))
    (hz : ∀ u ∈ ps, u.line = 0) (hk : NoLineComment (ps ++ t' :: more)) (hb : NoLineComment b)
    (hm : Move o { s.reopened with pending := ps, assigned := s.assigned } none t' (more ++ b)
      ⟨X, previous, b⟩) :
    run o {} none (us ++ (s.dueTokens ++ vs) ++ (ps ++ t' :: more ++ b)) = run o X none b := by
  obtain ⟨hps, ht'⟩ : SameContents s.pending ps ∧ t'.content = t.content := by
    simpa [SameContents] using hc
  have hb' : NoLineComment (ps ++ t' :: (more ++ b)) := by
    have hall := noLineComment_append.2 ⟨hk, hb⟩
    rwa [List.append_assoc, List.cons_append] at hall
  have hstep := (h.held_again hn hps).run_step (idle_reopened s) hz hb' (h.start_again hps ht') hm
  rw [List.append_assoc ps, List.cons_append, hr.run_eq ps t' (more ++ b) hc hb', hstep]

/-- An element was written: its text is that of the statement read so far, of the token `t` and of
the tokens `more`, and the move that wrote it is made again. -/
theorem Reread.written_of_move {us vs ps more rest₁ : List Token} {t' : Token}
    {lines : List (List Char)} {m : Seam} {s₁ : State} (h : Reread o s (t :: rest)) (field : Bool)
    (hr : Resumed o s t us vs) (hn : s.nesting = [])
    (hc : SameContents (s.pending ++ [t]) (ps ++ [t'])) (hz : ∀ u ∈ ps, u.line = 0)
    (hk : NoLineComment (ps ++ t' :: more))
    (hq : Spells .tokens AtGap (page (s.setIn o lines)) (vs ++ (ps ++ t' :: more)))
    (hne : lines ≠ []) (hout : s₁.out = s.out ++ s.frontLines field ++ s.setIn o lines)
    (hcarry : s₁.carry = none)
    (hmove : ∀ b, m.Admits b → ∃ previous, Move o
      { s.reopened with pending := ps, assigned := s.assigned } none t' (more ++ b)
      ⟨s₁.bare, previous, b⟩)
    (hm : m.Meets s₁ rest₁) (hx : m ≠ .annotated) : Written o s₁ rest₁ := by
  have hi := h.dueImports
  have hpage := spells_emission (o := o) (spells_dueImports hi) hr.spells.atLineEnd hq hne field
  have hplain : NoLineComment (us ++ (s.dueTokens ++ (vs ++ (ps ++ t' :: more)))) :=
    noLineComment_append.2 ⟨hr.plain, noLineComment_append.2 ⟨noLineComment_dueTokens hi,
      noLineComment_append.2 ⟨hr.plainCarry, hk⟩⟩⟩
  refine .lines hcarry (by rw [hout]; exact hpage) hplain ?_ hm fun ha => absurd ha hx
  intro b hb hadmits
  obtain ⟨previous, hm⟩ := hmove b hadmits
  rw [← h.run_of_move hr hn hc hz hk hb hm]
  simp only [List.append_assoc]

theorem indent_reopened (S : State) (ps : List Token) (assigned : Bool) :
    State.indent { S.reopened with pending := ps, assigned := assigned } o = S.indent o := by
  simp [State.indent, State.reopened, State.bare]

/-- A statement that was written is written again. -/
theorem endStatement_again {S : State} (assigned : Bool)
    (h : S.scope.kind = .file → startsImport S.pending = false) :
    (S.endStatement o).bare = State.endStatement
      { S.reopened with pending := S.respaced o, assigned := assigned } o := by
  have hindent := indent_reopened (o := o) S (S.respaced o) assigned
  generalize hX : ({ S.reopened with pending := S.respaced o, assigned := assigned } : State) = X
  rw [hX] at hindent
  have hpending : X.pending = S.respaced o := by rw [← hX]
  have hkind : X.scope.kind = S.scope.kind := by
    rw [← hX]
    rfl
  have hcarry : X.carry = S.carry := by
    rw [← hX]
    rfl
  have hcontents : SameContents S.pending X.pending := by
    rw [hpending]
    exact respaced_contents S o
  have hlines := statementLines_again hpending hcarry hindent
  have hfield : X.declaresField = S.declaresField := by
    unfold State.declaresField
    rw [hkind, isField_of_contents hcontents]
  have himport : X.scope.kind = .file → startsImport X.pending = false := by
    rw [hkind, startsImport_of_contents hcontents]
    exact h
  rw [endStatement_of_member h, endStatement_of_member himport, bare_emitMember, hlines, hfield,
    ← hX]
  rfl

theorem idle_emitMember {S : State} (h : S.nesting = []) (lines : List (List Char)) (field : Bool) :
    Idle (S.clearStatement.emitMember o lines field) := by
  rw [emitMember_eq]
  exact ⟨rfl, h, rfl⟩

theorem Reread.imports_emitMember (h : Reread o s rest) {S : State} (hS : S.imports = s.imports)
    (lines : List (List Char)) (field : Bool) :
    ∀ line ∈ (S.clearStatement.emitMember o lines field).imports, ImportLine o line := by
  rw [emitMember_eq]
  intro line hl
  have hmem := mem_imports_of_keptImports hl
  exact h.imports line (hS ▸ hmem)

/-- A statement that ends is written, and it is read and written again. -/
theorem Reread.statement (h : Reread o s (t :: rest)) (hf : Visit.fuses ⟨s, [t], rest⟩ = false)
    (ht : t.isPunct [';'] = true) (hn : s.nesting = []) (hmember : s.scope.kind = .file →
      startsImport (s.pending ++ [t]) = false) :
    Reread o (State.endStatement { s with pending := s.pending ++ [t] } o) rest := by
  have hleg : Legible (s.pending ++ [t] ++ rest) := by simpa using h.legible
  have hplain : NoLineComment (s.pending ++ [t] ++ rest) := by simpa using h.plain
  obtain ⟨us, vs, hr⟩ := h.resumes rfl hf (isPunct_disjoint ht (by decide))
  -- the statement with its semicolon, which is broken into lines as a whole
  generalize hS : ({ s with pending := s.pending ++ [t] } : State) = S
  have hpending : S.pending = s.pending ++ [t] := by rw [← hS]
  have hindent : S.indent o = s.indent o := by
    rw [← hS]
    rfl
  have hmember' : S.scope.kind = .file → startsImport S.pending = false := by
    rw [← hS]
    exact hmember
  have hcontents := respaced_contents S o
  have hspells : Spells .tokens AtGap (page (s.setIn o (S.statementLines o)))
      (vs ++ S.respaced o) := by
    have hlines := spells_statementLines (o := o) (s := S) (r := Reading.tokens) (v := vs)
      (by rw [hpending]; exact hleg.of_append_left)
      (by rw [hpending]; exact (noLineComment_append.1 hplain).1) (by rw [← hS]; exact hr.carry)
      (S.indent o)
    rw [hindent] at hlines
    exact hlines
  have hk : NoLineComment (S.respaced o) := by
    refine noLineComment_of_contents hcontents ?_
    rw [hpending]
    exact (noLineComment_append.1 hplain).1
  rw [hpending] at hcontents
  obtain ⟨ps, t', hq, hps, ht'⟩ := exists_concat_of_contents hcontents
  rw [hq] at hcontents hspells hk
  have hend := endStatement_of_member (o := o) hmember'
  have hagain := endStatement_again (o := o) s.assigned hmember'
  rw [hend] at hagain ⊢
  refine reread_of_written (idle_emitMember (by rw [← hS]; exact hn) _ _) ?_ hleg.of_append_right
    (noLineComment_append.1 hplain).2 (h.imports_emitMember (by rw [← hS]) _ _) ?_ ?_
  · rw [emitMember_carry]
    rfl
  · rw [emitMember_eq, ← hS]
    exact h.nested.of_kind rfl
  · refine h.written_of_move S.declaresField hr hn hcontents
      (fun u hu => line_respaced S o u (by simp [hq, hu])) hk hspells (statementLines_ne_nil S o)
      ?_ ?_ ?_ (Seam.meets_free _ ?_) (by rintro ⟨⟩)
    · rw [emitMember_out, ← hS]
      rfl
    · rw [emitMember_carry]
      rfl
    · intro b _
      have hmark : t'.isPunct [';'] = true := by rw [isPunct_of_content ht', ht]
      have hmove : Move o { s.reopened with pending := ps, assigned := s.assigned } none t' b _ :=
        .statement hmark rfl
      rw [hagain, hq, ← hS]
      exact ⟨_, hmove⟩
    · rw [emitMember_eq]
      rintro ⟨⟩

theorem Reread.spells_text {us vs : List Token} (h : Reread o s (t :: rest))
    (hr : Resumed o s t us vs) : Spells .tokens AtGap s.text (vs ++ leading s.pending) :=
  spells_withCarry hr.carry
    (spells_joinTokens h.legible.of_append_left (noLineComment_append.1 h.plain).1)

theorem leading_singleton (t : Token) : leading [t] = [t.detached] := rfl

theorem content_detached (t : Token) : t.detached.content = t.content := rfl

theorem contents_leading_concat (ts : List Token) (t : Token) :
    SameContents (ts ++ [t]) (leading ts ++ [t.detached]) := by
  simp [SameContents, content_detached]

theorem spells_detached {c : Char} (h : c ∈ marks) (ht : t.isPunct [c] = true) :
    Spells .tokens AtGap [c] [t.detached] := by
  have htext : t.text = [c] := (Token.isPunct_iff.1 ht).2
  rw [← leading_singleton, ← htext]
  refine spells_token (fun next => ?_) (by simp [kind_of_isPunct ht])
  rw [kind_of_isPunct ht, htext]
  exact reads_mark h next

theorem openBlock_again (line : Nat) (assigned : Bool) :
    (s.openBlock o line).bare =
      State.openBlock { s.reopened with pending := leading s.pending, assigned := assigned } o 0 := by
  have hkind : blockKind (leading s.pending) = blockKind s.pending :=
    blockKind_of_contents (sameContents_leading s.pending)
  have htext : State.text { s.reopened with pending := leading s.pending, assigned := assigned } =
      s.text := by
    rw [State.text, joinTokens_leading]
    rfl
  have hmember := bare_emitMember (o := o) (s := s.clearStatement) [withBrace s.text ['{']] false
  unfold State.openBlock
  simp only [htext, hkind]
  have hclear : State.clearStatement
      { s.reopened with pending := leading s.pending, assigned := assigned } =
        s.clearStatement.reopened := rfl
  rw [hclear, ← hmember]
  rfl

/-- A block that opens is opened again. -/
theorem Reread.openBlock (h : Reread o s (t :: rest)) (hf : Visit.fuses ⟨s, [t], rest⟩ = false)
    (ht : t.isPunct ['{'] = true) (hn : s.nesting = []) (ha : s.assigned = false)
    (hrest : ∀ next, rest.head? = some next → next.isPunct ['}'] = false) :
    Reread o (s.openBlock o t.line) rest := by
  obtain ⟨us, vs, hr⟩ := h.resumes rfl hf (isPunct_disjoint ht (by decide))
  have hleg : Legible (t :: rest) := h.legible.of_append_right
  have hplain := noLineComment_append.1 h.plain
  have hbrace := spells_detached (c := '{') (by decide) ht
  have hspells : Spells .tokens AtGap (page (s.setIn o [withBrace s.text ['{']]))
      (vs ++ (leading s.pending ++ t.detached :: [])) := by
    have hline := spells_setIn (o := o) (s := s) (spells_withBrace (h.spells_text hr) hbrace)
    rwa [List.append_assoc] at hline
  have hsame := contents_leading_concat s.pending t
  have hidle := idle_emitMember (o := o) hn [withBrace s.text ['{']] false
  have hkind := blockKind_ne_file s.pending
  refine reread_of_written ⟨hidle.pending, hidle.nesting, hidle.assigned⟩ ?_ hleg.2
    (noLineComment_cons.1 hplain.2).2 (h.imports_emitMember rfl [withBrace s.text ['{']] false)
    ⟨hkind, ?_, ?_⟩ ?_
  · exact emitMember_carry ..
  · rw [emitMember_eq]
  · rw [emitMember_eq]
    exact h.nested.of_kind rfl
  · refine h.written_of_move (m := .opened) false hr hn hsame (line_leading s.pending)
      (noLineComment_of_contents hsame ?_) hspells (by simp) ?_ ?_ ?_ ?_ (by rintro ⟨⟩)
    · exact noLineComment_concat.2 ⟨hplain.1, by simp [kind_of_isPunct ht]⟩
    · exact emitMember_out ..
    · exact emitMember_carry ..
    · intro b hb
      have hmove : Move o { s.reopened with pending := leading s.pending, assigned := s.assigned }
          none t.detached b _ := .openBlock ht rfl ha hb
      rw [openBlock_again t.line s.assigned]
      exact ⟨_, hmove⟩
    · refine ⟨fun _ => hkind, by rintro ⟨⟩, ⟨by rintro ⟨⟩, by rintro ⟨⟨⟩, -⟩⟩,
        fun _ _ next hnext => hrest next ?_⟩
      have hp : (s.openBlock o t.line).pending = [] := hidle.pending
      rwa [hp] at hnext

/-- The two braces of an empty block as they are read behind a blank. -/
def emptyBraces (t next : Token) : List Token :=
  [t.detached, { next with spaced := false, line := 0 }]

theorem spells_emptyBraces {next : Token} (ht : t.isPunct ['{'] = true)
    (hn : next.isPunct ['}'] = true) :
    Spells .tokens AtGap ['{', '}'] (emptyBraces t next) := by
  obtain ⟨hk, htext⟩ := Token.isPunct_iff.1 ht
  obtain ⟨hk', htext'⟩ := Token.isPunct_iff.1 hn
  have hleg : Legible [t, { next with spaced := false, line := 0 }] := by
    refine ⟨fun after _ _ => ?_, fun after _ _ => ?_, trivial⟩
    · rw [hk, htext]
      exact reads_mark (by decide) after
    · simp only [hk', htext']
      exact reads_mark (by decide) after
  have hplain : NoLineComment [t, { next with spaced := false, line := 0 }] :=
    noLineComment_cons.2 ⟨by simp [hk], noLineComment_cons.2 ⟨by simp [hk'], noLineComment_nil⟩⟩
  have hspells := spells_joinTokens (r := Reading.tokens) hleg hplain
  have htext : joinTokens [t, { next with spaced := false, line := 0 }] = ['{', '}'] := by
    simp [joinTokens, htext, htext']
  rw [htext] at hspells
  exact hspells

theorem text_reopened (s : State) (assigned : Bool) :
    State.text { s.reopened with pending := leading s.pending, assigned := assigned } = s.text := by
  rw [State.text, joinTokens_leading]
  rfl

theorem emptyBlock_again (assigned : Bool) {next next' : Option Token}
    (h : isContinuation next = false) (h' : isContinuation next' = false) :
    (s.emptyBlock o next).bare = State.emptyBlock
      { s.reopened with pending := leading s.pending, assigned := assigned } o next' := by
  rw [emptyBlock_of_ended h, emptyBlock_of_ended h', text_reopened]
  exact bare_emitMember (s := s.clearStatement) [withBrace s.text ['{', '}']] false

theorem emptyBlock_carried_again (assigned : Bool) {next next' : Option Token}
    (h : isContinuation next = true) (h' : isContinuation next' = true) :
    (s.emptyBlock o next).reopened = State.emptyBlock
      { s.reopened with pending := leading s.pending, assigned := assigned } o next' := by
  rw [emptyBlock_of_continued h, emptyBlock_of_continued h', text_reopened]
  rfl

/-- The text of an empty block behind what is carried. -/
theorem Reread.spells_emptyBlock {us vs : List Token} {next : Token} (h : Reread o s (t :: rest))
    (hr : Resumed o s t us vs) (ht : t.isPunct ['{'] = true) (hnext : next.isPunct ['}'] = true) :
    Spells .tokens AtGap (withBrace s.text ['{', '}'])
      (vs ++ (leading s.pending ++ emptyBraces t next)) := by
  have hline := spells_withBrace (h.spells_text hr) (spells_emptyBraces ht hnext)
  rwa [List.append_assoc] at hline

theorem noLineComment_emptyBlock {ts : List Token} {next : Token} (h : NoLineComment ts)
    (ht : t.isPunct ['{'] = true) (hnext : next.isPunct ['}'] = true) :
    NoLineComment (leading ts ++ emptyBraces t next) := by
  have hsame : SameContents (ts ++ [t, next]) (leading ts ++ emptyBraces t next) := by
    simp [SameContents, emptyBraces, content_detached]
    rfl
  refine noLineComment_of_contents hsame (noLineComment_append.2 ⟨h, ?_⟩)
  exact noLineComment_cons.2 ⟨by simp [kind_of_isPunct ht],
    noLineComment_cons.2 ⟨by simp [kind_of_isPunct hnext], noLineComment_nil⟩⟩

section EmptyBlock

variable {next : Token} {rest' us vs : List Token}

/-- An empty block that ends its statement is written, and read and written again. -/
theorem Reread.emptyBlock_of_ended (h : Reread o s (t :: next :: rest')) (hr : Resumed o s t us vs)
    (ht : t.isPunct ['{'] = true) (hn : s.nesting = []) (ha : s.assigned = false)
    (hnext : next.isPunct ['}'] = true) (hcont : isContinuation rest'.head? = false) :
    Reread o (s.emptyBlock o rest'.head?) rest' := by
  have hbehind : Legible (t :: next :: rest') := h.legible.of_append_right
  have hplain := noLineComment_append.1 h.plain
  have hidle := idle_emitMember (o := o) hn [withBrace s.text ['{', '}']] false
  have hagain {b : List Token} (hb : isContinuation b.head? = false) :=
    emptyBlock_again (o := o) (s := s) s.assigned hcont hb
  rw [Layout.emptyBlock_of_ended hcont] at hagain ⊢
  refine reread_of_written hidle (emitMember_carry ..) hbehind.2.2
    (noLineComment_cons.1 (noLineComment_cons.1 hplain.2).2).2
    (h.imports_emitMember rfl [withBrace s.text ['{', '}']] false) ?_ ?_
  · rw [emitMember_eq]
    exact h.nested.of_kind rfl
  · refine h.written_of_move (m := .closed) false hr hn (contents_leading_concat s.pending t)
      (line_leading s.pending) (noLineComment_emptyBlock hplain.1 ht hnext)
      (spells_setIn (h.spells_emptyBlock hr ht hnext)) (by simp) (emitMember_out ..)
      (emitMember_carry ..) ?_ ?_ (by rintro ⟨⟩)
    · intro b hb
      have hmove : Move o { s.reopened with pending := leading s.pending, assigned := s.assigned }
          none t.detached ({ next with spaced := false, line := 0 } :: b) _ :=
        .emptyBlock rfl ht rfl ha hnext
      rw [hagain hb]
      exact ⟨_, hmove⟩
    · refine ⟨by rintro ⟨⟩, fun _ => ?_, ⟨by rintro ⟨⟩, ?_⟩, fun _ _ => ?_⟩
      · rw [emitMember_eq]
      · rw [emitMember_eq]
        rintro ⟨⟨⟩, -⟩
      · rw [hidle.pending]
        exact hcont

/-- An empty block whose statement goes on is carried, and carried again. -/
theorem Reread.emptyBlock_of_continued (h : Reread o s (t :: next :: rest'))
    (hr : Resumed o s t us vs) (ht : t.isPunct ['{'] = true) (hn : s.nesting = [])
    (ha : s.assigned = false) (hnext : next.isPunct ['}'] = true)
    (hcont : isContinuation rest'.head? = true) : Reread o (s.emptyBlock o rest'.head?) rest' := by
  have hbehind : Legible (t :: next :: rest') := h.legible.of_append_right
  have hplain := noLineComment_append.1 h.plain
  have hk := noLineComment_emptyBlock hplain.1 ht hnext
  have hagain {b : List Token} (hb : isContinuation b.head? = true) :=
    emptyBlock_carried_again (o := o) (s := s) s.assigned hcont hb
  rw [Layout.emptyBlock_of_continued hcont] at hagain ⊢
  refine ⟨hbehind.2.2, (noLineComment_cons.1 (noLineComment_cons.1 hplain.2).2).2, ?_,
    fun hp => absurd rfl hp, fun _ => hcont, h.imports, h.nested, ?_⟩
  · have hnesting : s.clearStatement.nesting.map Prod.fst = [] := by
      rw [State.clearStatement, hn]
      rfl
    rw [hnesting]
    exact .nil
  · refine .carried rfl hr.spells hr.plain (h.spells_emptyBlock hr ht hnext)
      (noLineComment_append.2 ⟨hr.plainCarry, hk⟩) ?_
    intro b hb hcb
    have hmove : Move o { s.reopened with pending := leading s.pending, assigned := s.assigned }
        none t.detached ({ next with spaced := false, line := 0 } :: b) _ :=
      .emptyBlock rfl ht rfl ha hnext
    rw [hagain hcb, ← h.run_of_move hr hn (contents_leading_concat s.pending t)
      (line_leading s.pending) hk hb hmove]
    simp only [List.append_assoc]
    rfl

theorem Reread.emptyBlock (h : Reread o s (t :: next :: rest'))
    (hf : Visit.fuses ⟨s, [t, next], rest'⟩ = false)
    (ht : t.isPunct ['{'] = true) (hn : s.nesting = []) (ha : s.assigned = false)
    (hnext : next.isPunct ['}'] = true) : Reread o (s.emptyBlock o rest'.head?) rest' := by
  have hview : t :: next :: rest' = [t, next] ++ rest' := rfl
  obtain ⟨us, vs, hr⟩ := h.resumes hview hf (isPunct_disjoint ht (by decide))
  cases hcont : isContinuation rest'.head? with
  | false => exact h.emptyBlock_of_ended hr ht hn ha hnext hcont
  | true => exact h.emptyBlock_of_continued hr ht hn ha hnext hcont

end EmptyBlock

/-- The step closes a block of the file whose statement goes on, while imports wait: they are
written in front of the brace, and so into the block. -/
def Visit.encloses (v : Visit) : Bool :=
  match v.taken, v.state.outer with
  | [t], around :: _ =>
    t.isPunct ['}'] && v.state.nesting.isEmpty && around.kind == .file &&
      !v.state.imports.isEmpty && isContinuation v.rest.head?
  | _, _ => false

theorem reopened_of_nil (h : s.dueImports = []) : s.reopened = s.bare := by
  rw [State.reopened, h]
  rfl

theorem respaced_of_nil (h : s.pending = []) (o : Options) : s.respaced o = [] := by
  have hc := respaced_contents s o
  rw [h] at hc
  exact sameContents_nil hc

/-- The constants of an enumeration are written again. -/
theorem settled_again {assigned : Bool} (hdue : s.dueImports = [])
    (ha : s.pending = [] → assigned = false) :
    (s.settled o).bare =
      State.settled { s.reopened with pending := s.respaced o, assigned := assigned } o := by
  by_cases hp : s.pending = []
  · have hassigned := ha hp
    have hempty : s.settled o = s := by rw [State.settled, if_pos (by simp [hp])]
    rw [hempty, respaced_of_nil hp, hassigned, State.settled, if_pos (by simp), reopened_of_nil hdue]
    rfl
  · have hne : s.respaced o ≠ [] := by
      intro h0
      have hc := respaced_contents s o
      rw [h0] at hc
      exact hp (by simpa [SameContents, eq_comm] using hc)
    have hlines := statementLines_again
      (X := { s.reopened with pending := s.respaced o, assigned := assigned }) (o := o) rfl rfl
      (indent_reopened s _ assigned)
    have hmember := bare_emitMember (o := o) (s := s.clearStatement) (s.statementLines o) true
    rw [State.settled, if_neg (by simp [hp]), State.settled, if_neg (by simp [hne]), hlines, hmember]
    rfl

theorem bare_left (around : Scope) (outer : List Scope) {next next' : Option Token}
    (h : isContinuation next = false) (h' : isContinuation next' = false) :
    (s.left o around outer next).bare =
      s.bare.left o around.erased (outer.map Scope.erased) next' := by
  rw [left_of_ended h, left_of_ended h']
  simp [State.pushLine, State.bare, State.indent, Scope.erased]

theorem reopened_left (around : Scope) (outer : List Scope) {next next' : Option Token}
    (h : isContinuation next = true) (h' : isContinuation next' = true)
    (hdue : (s.left o around outer next).dueImports = []) : (s.left o around outer next).reopened =
      s.bare.left o around.erased (outer.map Scope.erased) next' := by
  rw [reopened_of_nil hdue, left_of_continued h, left_of_continued h']
  simp [State.bare, Scope.erased]

theorem Nested.dueImports {around : Scope} {outer : List Scope}
    (h : Nested s.scope (around :: outer)) : s.dueImports = [] :=
  if_neg fun hfile => h.1 hfile.1

theorem Held.assigned_of_nil {fresh : Bool} {brackets : List Bracket} {assigned : Bool}
    {ts : List Token} (h : Held fresh ts brackets assigned) (hts : ts = []) : assigned = false := by
  cases h with
  | nil => rfl
  | push => simp at hts

/-- Only a word continues what is carried. -/
theorem Reread.carry_eq_none (h : Reread o s (t :: rest)) (hp : s.pending = [])
    (hword : t.kind ≠ .word) : s.carry = none := by
  by_contra hc
  have hcont := h.continued hc
  rw [hp] at hcont
  exact hword (kind_of_isContinuation hcont)

/-- The lines of a block, up to its closing brace, are read again. -/
theorem Reread.spells_settled {us vs : List Token} (h : Reread o s (t :: rest))
    (hr : Resumed o s t us vs) (hdue : s.dueImports = []) (hword : t.kind ≠ .word) :
    Spells .tokens AtGap (page (s.settled o).out) (us ++ (s.dueTokens ++ vs) ++ s.respaced o) := by
  have htokens : s.dueTokens = [] := by
    rw [State.dueTokens, hdue]
    rfl
  by_cases hp : s.pending = []
  · have hc := h.carry_eq_none hp hword
    have hcarry := hr.carry
    rw [hc] at hcarry
    obtain rfl := hcarry.eq_nil atLineEnd_nil.atGap
    rw [htokens, respaced_of_nil hp, State.settled, if_pos (by simp [hp])]
    simpa using hr.spells
  · have hlines := spells_statementLines (o := o) (r := Reading.tokens) h.legible.of_append_left
      (noLineComment_append.1 h.plain).1 hr.carry (s.indent o)
    have hpage := spells_emission (o := o) (spells_dueImports h.dueImports) hr.spells.atLineEnd
      hlines (statementLines_ne_nil s o) true
    have hout : (s.settled o).out = s.out ++ s.frontLines true ++ s.setIn o (s.statementLines o) := by
      rw [State.settled, if_neg (by simp [hp]), emitMember_out]
      rfl
    have htext : us ++ (s.dueTokens ++ vs) ++ s.respaced o =
        us ++ (s.dueTokens ++ (vs ++ s.respaced o)) := by
      simp only [List.append_assoc]
    rw [hout, htext]
    exact hpage

theorem Reread.idle_settled (h : Reread o s (t :: rest)) (hn : s.nesting = [])
    (hkind : s.scope.kind ≠ .file) (hword : t.kind ≠ .word) :
    Idle (s.settled o) ∧ (s.settled o).carry = none ∧ (s.settled o).imports = s.imports := by
  by_cases hp : s.pending = []
  · rw [State.settled, if_pos (by simp [hp])]
    exact ⟨⟨hp, hn, h.held.assigned_of_nil hp⟩, h.carry_eq_none hp hword, rfl⟩
  · rw [State.settled, if_neg (by simp [hp])]
    refine ⟨idle_emitMember hn _ _, emitMember_carry .., ?_⟩
    rw [emitMember_eq]
    exact if_neg fun hfile => hkind hfile.1

section Left

variable {S : State} {around : Scope} {outer : List Scope} {ws : List Token}

theorem noLineComment_detached (ht : t.isPunct ['}'] = true) : NoLineComment [t.detached] :=
  noLineComment_cons.2 ⟨by simp [Token.detached, kind_of_isPunct ht], noLineComment_nil⟩

/-- A block is left with its statement: the brace goes behind the lines of the block. -/
theorem reread_left_of_ended (hi : Idle S) (hc : S.carry = none)
    (himports : ∀ line ∈ S.imports, ImportLine o line) (ha : around.inElement = false)
    (hn : Nested around outer) (hl : Legible rest) (hkr : NoLineComment rest)
    (ht : t.isPunct ['}'] = true) (hu : Spells .tokens AtGap (page S.out) ws)
    (hk : NoLineComment ws) (hr : ∀ b, NoLineComment b → run o {} none (ws ++ t.detached :: b) =
      run o (S.bare.left o around.erased (outer.map Scope.erased) b.head?) none b)
    (hcont : isContinuation rest.head? = false) :
    Reread o (S.left o around outer rest.head?) rest := by
  have hagain {b : List Token} (hb : isContinuation b.head? = false) :=
    bare_left (o := o) (s := S) around outer hcont hb
  have hout : Spells .tokens AtGap (page (S.left o around outer rest.head?).out)
      (ws ++ [t.detached]) := by
    rw [left_of_ended hcont]
    refine hu.atLineEnd.page_append ?_ (by simp)
    rw [page_singleton]
    exact (spells_detached (c := '}') (by decide) ht).indent _
  rw [left_of_ended hcont] at hagain hout ⊢
  refine reread_of_written ⟨hi.pending, hi.nesting, hi.assigned⟩ hc hl hkr himports
    (hn.of_kind rfl) ?_
  refine .lines (m := .closed) hc hout (noLineComment_append.2 ⟨hk, noLineComment_detached ht⟩) ?_ ?_
    (by rintro ⟨⟩)
  · intro b hb hclosed
    rw [hagain hclosed, ← hr b hb, List.append_assoc]
    rfl
  · refine ⟨by rintro ⟨⟩, fun _ => ha, ⟨by rintro ⟨⟩, fun hw => ?_⟩, fun _ _ => ?_⟩
    · have hmember := hw.1
      simp [State.pushLine, ha] at hmember
    have hp : (State.pushLine { S with
        scope := { around with afterField := false }, outer := outer } o ['}']).pending = [] :=
      hi.pending
    rw [hp]
    exact hcont

/-- A block is left whose statement goes on: the brace is carried. -/
theorem reread_left_of_continued (hi : Idle S)
    (himports : ∀ line ∈ S.imports, ImportLine o line) (hn : Nested around outer)
    (hl : Legible rest) (hkr : NoLineComment rest) (ht : t.isPunct ['}'] = true)
    (hu : Spells .tokens AtGap (page S.out) ws) (hk : NoLineComment ws)
    (hr : ∀ b, NoLineComment b → run o {} none (ws ++ t.detached :: b) =
      run o (S.bare.left o around.erased (outer.map Scope.erased) b.head?) none b)
    (he : around.kind = .file → S.imports = []) (hcont : isContinuation rest.head? = true) :
    Reread o (S.left o around outer rest.head?) rest := by
  have hdue : (S.left o around outer rest.head?).dueImports = [] := by
    rw [left_of_continued hcont]
    unfold State.dueImports
    split
    · next hfile => rw [he hfile.1, sortedImports_nil]
    · rfl
  have hagain {b : List Token} (hb : isContinuation b.head? = true) :=
    reopened_left (o := o) (s := S) around outer hcont hb hdue
  rw [left_of_continued hcont] at hagain hdue ⊢
  refine ⟨?_, ?_, ?_, fun hp => absurd hi.pending hp, fun _ => ?_, himports, hn.of_kind rfl, ?_⟩
  · simpa [hi.pending] using hl
  · simpa [hi.pending] using hkr
  · simp only [hi.pending, hi.nesting, hi.assigned, List.map_nil]
    exact .nil
  · rw [hi.pending]
    exact hcont
  · refine .carried rfl hu hk (spells_detached (by decide) ht) (noLineComment_detached ht)
      fun b hb hcb => ?_
    rw [State.dueTokens, hdue, hagain hcb, ← hr b hb, List.append_assoc]
    rfl

end Left

/-- A block that closes is closed again, unless imports were written in front of its brace. -/
theorem Reread.closeBlock {s₁ : State} (h : Reread o s (t :: rest))
    (hf : Visit.fuses ⟨s, [t], rest⟩ = false) (he : Visit.encloses ⟨s, [t], rest⟩ = false)
    (ht : t.isPunct ['}'] = true) (hn : s.nesting = [])
    (hs : s.closeBlock o t.line rest.head? = .ok s₁) : Reread o s₁ rest := by
  obtain ⟨around, outer, hout, hpending, rfl⟩ := closeBlock_eq_ok.1 hs
  obtain ⟨us, vs, hr⟩ := h.resumes rfl hf (isPunct_disjoint ht (by decide))
  have hleg : Legible (t :: rest) := h.legible.of_append_right
  have hplain := noLineComment_append.1 h.plain
  have hnested := h.nested
  rw [hout] at hnested
  obtain ⟨-, hmember, haround⟩ := hnested
  have hdue : s.dueImports = [] := Nested.dueImports (hout ▸ h.nested)
  have hsettled := settled_again (o := o) hdue h.held.assigned_of_nil
  have hpage := h.spells_settled hr hdue (by simp [kind_of_isPunct ht])
  have hsame : SameContents (s.pending ++ [t]) (s.respaced o ++ [t.detached]) := by
    have hcontents := respaced_contents s o
    simpa [SameContents, content_detached] using hcontents
  have hk : NoLineComment (s.respaced o ++ t.detached :: []) :=
    noLineComment_of_contents hsame (noLineComment_append.2
      ⟨hplain.1, noLineComment_cons.2 ⟨by simp [kind_of_isPunct ht], noLineComment_nil⟩⟩)
  have hbrace := spells_detached (c := '}') (by decide) ht
  have hmove (b : List Token) : Move o
      { s.reopened with pending := s.respaced o, assigned := s.assigned } none t.detached b
      ⟨(s.settled o).bare.left o around.erased (outer.map Scope.erased) b.head?,
        some t.detached, b⟩ := by
    refine .closeBlock ht rfl (closeBlock_eq_ok.2 ⟨around.erased, outer.map Scope.erased, ?_, ?_, ?_⟩)
    · simp [State.reopened, State.bare, hout]
    · intro hne
      refine hpending fun hp => hne ?_
      exact respaced_of_nil hp o
    · rw [hsettled]
  have hread (b : List Token) (hb : NoLineComment b) :
      run o {} none (us ++ (s.dueTokens ++ vs) ++ s.respaced o ++ t.detached :: b) =
        run o ((s.settled o).bare.left o around.erased (outer.map Scope.erased) b.head?) none b := by
    rw [← h.run_of_move hr hn hsame (line_respaced s o) hk hb (hmove b)]
    simp only [List.append_assoc]
    rfl
  have hkind : s.scope.kind ≠ .file := by
    have hkind := h.nested
    rw [hout] at hkind
    exact hkind.1
  obtain ⟨hidle, hcarry, himports⟩ := h.idle_settled (o := o) hn hkind (by simp [kind_of_isPunct ht])
  have hplain' : NoLineComment (us ++ (s.dueTokens ++ vs) ++ s.respaced o) :=
    noLineComment_append.2 ⟨noLineComment_append.2 ⟨hr.plain, noLineComment_append.2
      ⟨noLineComment_dueTokens h.dueImports, hr.plainCarry⟩⟩, (noLineComment_append.1 hk).1⟩
  have hlines : ∀ line ∈ (s.settled o).imports, ImportLine o line := by
    rw [himports]
    exact h.imports
  have hrest := (noLineComment_cons.1 hplain.2).2
  cases hcont : isContinuation rest.head? with
  | false =>
    exact reread_left_of_ended hidle hcarry hlines hmember haround hleg.2 hrest ht hpage hplain'
      hread hcont
  | true =>
    refine reread_left_of_continued hidle hlines haround hleg.2 hrest ht hpage hplain' hread
      (fun hfile => ?_) hcont
    rw [himports]
    simpa [Visit.encloses, hout, ht, hn, hfile, hcont] using he

end JpaScaffold.Java.Layout
