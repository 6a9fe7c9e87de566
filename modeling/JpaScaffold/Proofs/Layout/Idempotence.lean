import JpaScaffold.Proofs.Layout.Decorations

/-!
# A text is laid out as it stands

Every move keeps what a run over its own text has read, as long as no imports are moved away from
between an annotation and what would belong to it, or into a block that closes. The text of such a
run is then laid out as it stands.
-/
namespace JpaScaffold.Java.Layout

variable {o : Options} {s : State} {t : Token} {rest : List Token}

/-- Nothing is carried in front of an import. -/
theorem Reread.carry_of_import (h : Reread o s (t :: rest)) (ht : t.isPunct [';'] = true)
    (hi : startsImport (s.pending ++ [t]) = true) : s.carry = none ∧ startsImport s.pending = true := by
  cases hp : s.pending with
  | nil =>
    rw [hp] at hi
    have hkind := (Bool.and_eq_true_iff.1 hi).1
    rw [kind_of_isPunct ht] at hkind
    cases hkind
  | cons p ps =>
    rw [hp] at hi
    have himport : p.isTheWord "import".toList = true := hi
    refine ⟨?_, himport⟩
    by_contra hc
    have hcont := h.continued hc
    rw [hp, Continues] at hcont
    have hfree : (Seam.closed).Admits (p :: (ps ++ t :: rest)) :=
      Seam.closed.admits_freely (by rw [opensFreely, himport, Bool.or_true]) _
    have hstop : isContinuation (p :: (ps ++ t :: rest)).head? = false := hfree
    rw [List.cons_append, hstop] at hcont
    cases hcont

/-- An import that ends waits to be written. -/
theorem Reread.importStatement (h : Reread o s (t :: rest)) (ht : t.isPunct [';'] = true)
    (hn : s.nesting = []) (hk : s.scope.kind = .file)
    (hi : startsImport (s.pending ++ [t]) = true) :
    Reread o (State.endStatement { s with pending := s.pending ++ [t] } o) rest := by
  obtain ⟨hc, himport⟩ := h.carry_of_import ht hi
  have hleg : Legible (s.pending ++ [t] ++ rest) := by simpa using h.legible
  have hplain : NoLineComment (s.pending ++ [t] ++ rest) := by simpa using h.plain
  have hheld := h.held
  rw [hc, hn] at hheld
  have hline : ImportLine o (joinTokens (s.pending ++ [t])) :=
    importLine_of_held hleg.of_append_left (noLineComment_append.1 hplain).1 himport hheld ht
  have hend : State.endStatement { s with pending := s.pending ++ [t] } o =
      { s with
        pending := [], assigned := false, carry := none
        imports := s.imports ++ [joinTokens (s.pending ++ [t])] } := by
    have hpending := endStatement_of_import (s := { s with pending := s.pending ++ [t] }) (o := o) hk hi
    rw [hpending]
    simp only [State.clearStatement, State.text, withCarry, hc]
  rw [hend]
  -- the import that ends now is due itself, unless an element has begun
  have hdue : State.dueImports { s with
      pending := [], assigned := false, carry := none
      imports := s.imports ++ [joinTokens (s.pending ++ [t])] } = [] → s.scope.inElement = true := by
    intro hdue
    by_contra hin
    unfold State.dueImports at hdue
    rw [if_pos ⟨hk, by simpa using hin⟩] at hdue
    exact sortedImports_ne_nil (by simp) hdue
  refine reread_of_written ⟨rfl, hn, rfl⟩ rfl hleg.of_append_right (noLineComment_append.1 hplain).2
    ?_ h.nested ?_
  · intro line hl
    rcases List.mem_append.1 hl with hl | hl
    · exact h.imports line hl
    · rw [List.mem_singleton.1 hl]
      exact hline
  · cases h.written with
    | carried hc' =>
      rw [hc] at hc'
      cases hc'
    | @lines us m _ hu hku hr hm hx =>
      refine .lines rfl hu hku ?_ ⟨hm.opened, hm.closed, hm.annotated, fun hd ha => ?_⟩ hx
      · have hbare : State.bare { s with
            pending := [], assigned := false, carry := none
            imports := s.imports ++ [joinTokens (s.pending ++ [t])] } = s.bare := by
          simp only [State.bare, hc]
        rw [hbare]
        exact hr
      · cases m with
        | free => trivial
        | opened => exact absurd hk (hm.opened rfl)
        | closed =>
          have hin := hm.closed rfl
          rw [hdue hd] at hin
          cases hin
        | annotated => exact absurd rfl (ha rfl)

/-- One more token of a statement is held. -/
theorem Reread.token {s₁ : State} (h : Reread o s (t :: rest))
    (hf : Visit.fuses ⟨s, [t], rest⟩ = false)
    (hb : t.kind = .blockComment → s.atStart = false)
    (ha : s.atStart = true → startsAnnotation t rest = false)
    (hopen : t.isPunct ['{'] = true → s.nesting = [] → s.assigned = true)
    (hclose : t.isPunct ['}'] = true → s.nesting ≠ [])
    (hend : t.isPunct [';'] = true → s.nesting ≠ [])
    (hp : s.pushToken t = .ok s₁) : Reread o s₁ rest := by
  obtain ⟨hshift, hs₁⟩ := shift_of_pushToken hp
  generalize s₁.nesting = nesting at hshift hs₁
  generalize s₁.assigned = assigned at hshift hs₁
  subst hs₁
  have happ : s.pending ++ [t] ++ rest = s.pending ++ t :: rest := by simp
  have hhead : ((s.pending ++ [t]) ++ rest).head? = (s.pending ++ t :: rest).head? := by rw [happ]
  refine ⟨?_, ?_, ?_, ?_, ?_, h.imports, h.nested, ?_⟩
  · rw [happ]
    exact h.legible
  · rw [happ]
    exact h.plain
  · refine .push h.held (fun hk hnil => ?_) (fun hk hnil => hopen hk (List.map_eq_nil_iff.1 hnil))
      (fun hk hnil => hclose hk (List.map_eq_nil_iff.1 hnil))
      (fun hk hnil => hend hk (List.map_eq_nil_iff.1 hnil)) hshift
    have hstart := hb hk
    simpa [State.atStart, hnil] using hstart
  · intro _
    rw [happ]
    by_cases hnil : s.pending = []
    · intro hfresh u us hu
      rw [hnil] at hu
      cases hu
      exact ha (by rw [State.atStart, hnil, hfresh]; rfl)
    · exact h.start hnil
  · intro hc
    rw [happ]
    exact h.continued hc
  · cases h.written with
    | carried hc hu hk hv hkv hr => exact .carried hc hu hk hv hkv hr
    | @lines us m hc hu hk hr hm hx =>
      refine .lines hc hu hk hr ⟨hm.opened, hm.closed, hm.annotated, fun hd _ => ?_⟩ hx
      rw [happ]
      by_cases hnil : m = .annotated ∧ s.pending = []
      · obtain ⟨rfl, hnil⟩ := hnil
        obtain ⟨hin, hword⟩ := hm.annotated.1 rfl
        rw [hnil, List.nil_append]
        simpa [Visit.fuses, hnil, hin, hword, Seam.Admits] using hf
      · exact hm.admits hd fun hm hp => hnil ⟨hm, hp⟩

/-- Each move keeps what was read of the text, unless tokens fuse with an annotation or a block
encloses imports. -/
theorem Reread.move {previous : Option Token} {taken : List Token} {p : Progress}
    (h : Reread o s (t :: rest)) (hm : Move o s previous t rest p)
    (ht : t :: rest = taken ++ p.rest) (hf : Visit.fuses ⟨s, taken, p.rest⟩ = false)
    (he : Visit.encloses ⟨s, taken, p.rest⟩ = false) : Reread o p.state p.rest := by
  have htaken (ts : List Token) (hts : t :: rest = ts ++ p.rest) : taken = ts :=
    List.append_cancel_right (ht.symm.trans hts)
  cases hm with
  | lineComment hk =>
    have hplain := (noLineComment_append.1 h.plain).2
    exact absurd hk (noLineComment_cons.1 hplain).1
  | blockComment hk hs =>
    obtain rfl := htaken [t] rfl
    exact h.blockComment hf hk hs
  | @decoration name more tail rest' hr hs ha hta =>
    subst hr
    have hts : t :: name :: more = (t :: name :: tail) ++ rest' := by
      rw [← annotationTail_append hta]
      rfl
    obtain rfl := htaken _ hts
    exact h.decoration hf hs ha hta
  | @emptyBlock next rest' hr hb hn ha hc =>
    subst hr
    obtain rfl := htaken [t, next] rfl
    exact h.emptyBlock hf hb hn ha hc
  | openBlock hb hn ha hnext =>
    obtain rfl := htaken [t] rfl
    exact h.openBlock hf hb hn ha hnext
  | closeBlock hb hn hs =>
    obtain rfl := htaken [t] rfl
    exact h.closeBlock hf he hb hn hs
  | statement hb hn =>
    obtain rfl := htaken [t] rfl
    by_cases hi : s.scope.kind = .file ∧ startsImport (s.pending ++ [t]) = true
    · exact h.importStatement hb hn hi.1 hi.2
    · refine h.statement hf hb hn fun hk => ?_
      by_contra himport
      exact hi ⟨hk, eq_true_of_ne_false himport⟩
  | token hl hb ha hopen hclose hend hp =>
    obtain rfl := htaken [t] rfl
    exact h.token hf hb ha hopen hclose hend hp

theorem Reread.trace {previous : Option Token} {ts : List Token} {s₁ : State}
    (ht : Trace o s previous ts s₁) (h : Reread o s ts)
    (hv : ∀ v ∈ visits o s previous ts, v.fuses = false ∧ v.encloses = false) :
    Reread o s₁ [] := by
  induction ht with
  | nil => exact h
  | cons hm ht ih =>
    obtain ⟨taken, htaken, -, -⟩ := exists_taken hm
    rw [visits_cons hm htaken] at hv
    obtain ⟨⟨hf, he⟩, hrest⟩ := List.forall_mem_cons.1 hv
    exact ih (h.move hm htaken hf he) hrest

/-- Blanks in front of a text matter to its first token only. -/
theorem map_leading_scan (spaced : Bool) (cs : List Char) :
    (scan spaced cs).map leading = scan true cs := by
  have hunlined (ts : List Token) : (ts.map Token.unlined).map Token.unlined = ts.map Token.unlined := by
    simp [Token.unlined]
  have hscan (cs : List Char) : (scan false cs).map (·.map Token.unlined) = scan false cs := by
    rw [scan, Option.map_map]
    simp only [Function.comp_def, hunlined]
  induction cs generalizing spaced with
  | nil => simp [leading]
  | cons c cs ih =>
    cases hb : Text.isBlank c with
    | true => rw [scan_blank hb, scan_blank hb, ih]
    | false =>
      cases hx : lexeme c cs with
      | error fault => simp [scan, tokensFrom_fault hb hx, Except.toOption]
      | ok l =>
        rw [scan_lexeme hb hx, scan_lexeme hb hx, Option.map_map, ← hscan, Option.map_map,
          Option.map_map]
        simp only [Function.comp_def, leading, hunlined]
        rfl

theorem leading_unlined (ts : List Token) : leading (ts.map Token.unlined) = leading ts := by
  cases ts with
  | nil => rfl
  | cons t ts => simp [leading, Token.detached, Token.unlined]

theorem exists_tokenize_of_scan {cs : List Char} {ws : List Token} (h : scan true cs = some ws) :
    ∃ ts, tokenize cs = .ok ts ∧ leading ts = ws := by
  rw [← map_leading_scan false, ← scan_of_tokensFrom 1, Option.map_map] at h
  unfold tokenize
  cases ht : tokensFrom 1 false cs with
  | error e => simp [ht, Except.toOption] at h
  | ok ts =>
    refine ⟨ts, rfl, ?_⟩
    simpa [ht, Except.toOption, leading_unlined] using h

theorem scan_unlines {lines : List (List Char)} {ws : List Token}
    (h : Spells .tokens AtGap (page lines) ws) : scan true (unlines lines) = some ws := by
  cases lines with
  | nil =>
    obtain rfl := h.eq_nil atLineEnd_nil.atGap
    exact scan_nil true
  | cons line lines =>
    rw [unlines_eq_page (by simp), h.scan_eq (atGap_cons (by decide) []), scan_blank (by decide),
      scan_nil]
    simp

/-- The imports that wait until the end are read behind the lines that were written. -/
theorem spells_finished {us : List Token} (hu : Spells .tokens AtGap (page s.out) us)
    (hi : ∀ line ∈ sortedImports s.imports, ImportLine o line) :
    Spells .tokens AtGap (page (s.out ++ s.importLines))
      (us ++ (sortedImports s.imports).flatMap tokensOf) := by
  unfold State.importLines
  split
  · next hnone =>
    rw [List.isEmpty_iff.1 hnone, sortedImports_nil, List.append_nil]
    simpa using hu
  · next hsome =>
    have hne := sortedImports_ne_nil (by simpa using hsome)
    have hspells := spells_imports hi
    split
    · exact hu.atLineEnd.page_append hspells hne
    · exact hu.atLineEnd.page_append (hspells.page_gap hne) (by simp)

theorem Seam.admits_sortedImports (m : Seam) (hi : ∀ line ∈ sortedImports s.imports, ImportLine o line) :
    m.Admits ((sortedImports s.imports).flatMap tokensOf) := by
  by_cases hnone : sortedImports s.imports = []
  · rw [hnone]
    exact m.admits_nil
  · have hadmits := m.admits_imports hi hnone []
    rwa [List.append_nil] at hadmits

theorem isEmpty_sortedImports (imports : List (List Char)) :
    (sortedImports imports).isEmpty = imports.isEmpty := by
  cases imports with
  | nil => simp
  | cons line lines => simp [sortedImports_ne_nil]

/-- A finished layout is read again from its text. -/
theorem Reread.finish {text : List Char} (h : Reread o s []) (hf : finish o s = .ok text) :
    ∃ ws s₁, scan true text = some ws ∧ NoLineComment ws ∧ run o {} none ws = .ok s₁ ∧
      Layout.finish o s₁ = .ok text := by
  obtain ⟨hp, hn, hout, rfl⟩ := finish_eq_ok.1 hf
  have hc : s.carry = none := by
    by_contra hc
    have hcont := h.continued hc
    rw [hp] at hcont
    cases hcont
  have hkind : s.scope.kind = .file := by
    have hnested := h.nested
    rw [hout] at hnested
    exact hnested
  have himports : ∀ line ∈ sortedImports s.imports, ImportLine o line :=
    fun line hl => h.imports line (mem_sortedImports.1 hl)
  have hplain : NoLineComment ((sortedImports s.imports).flatMap tokensOf) := by
    intro t ht
    obtain ⟨line, hl, ht⟩ := List.mem_flatMap.1 ht
    exact (himports line hl).plain t ht
  have hfinished : s.finished o = s.out ++ s.importLines := by
    simp [State.finished, State.importLines, hc]
  cases h.written with
  | carried hc' =>
    rw [hc] at hc'
    cases hc'
  | @lines us m _ hu hk hr hm hx =>
    refine ⟨us ++ (sortedImports s.imports).flatMap tokensOf,
      { s.bare with imports := [] ++ sortedImports s.imports }, ?_, ?_, ?_, ?_⟩
    · rw [hfinished]
      exact scan_unlines (spells_finished hu himports)
    · exact noLineComment_append.2 ⟨hk, hplain⟩
    · have hread := run_imports himports (idle_bare s) hc hkind noLineComment_nil
      rw [List.append_nil] at hread
      rw [hr _ hplain (m.admits_sortedImports himports), hread, run]
      rfl
    · refine finish_eq_ok.2 ⟨rfl, rfl, by simp [State.bare, hout], ?_⟩
      rw [hfinished]
      simp [State.finished, State.importLines, State.bare, hc, isEmpty_sortedImports]

/-- The text of a run in which nothing fuses and no block encloses imports is laid out as it
stands. -/
theorem format_of_visits {source text : List Char} {ts : List Token}
    (ht : tokenize source = .ok ts) (hk : NoLineComment ts) (hf : format o source = .ok text)
    (hv : ∀ v ∈ visits o {} none ts, v.fuses = false ∧ v.encloses = false) :
    format o text = .ok text := by
  obtain ⟨ts', s₁, ht', htrace, hfinish⟩ := format_eq_ok.1 hf
  obtain rfl : ts = ts' := by
    rw [ht] at ht'
    cases ht'
    rfl
  have hlast := Reread.trace htrace (reread_start (legible_of_tokenize ht) hk) hv
  obtain ⟨ws, s₂, hscan, hws, hrun, hfinish'⟩ := hlast.finish hfinish
  obtain ⟨us, hus, hlead⟩ := exists_tokenize_of_scan hscan
  have hretold : Retold {} ws us := by
    refine ⟨?_, fun hp => absurd rfl hp⟩
    rw [← hlead, ← leading_unlined (leading us)]
    cases us with
    | nil => rfl
    | cons u us => simp [leading, Token.detached, Token.unlined]
  obtain ⟨s₃, hrun₃, halike⟩ := run_of_alike (trace_of_run hrun) rfl hretold hws
  exact format_eq_ok.2 ⟨us, s₃, hus, trace_of_run hrun₃, finish_of_alike halike hfinish'⟩

/-- The tokens of a block with a comment, behind an import. -/
def importedBlock : List Token :=
  [⟨.word, "import".toList, false, 1⟩, ⟨.word, ['b'], true, 1⟩, ⟨.punct, [';'], false, 1⟩,
    ⟨.word, ['c'], false, 1⟩, ⟨.punct, ['{'], false, 1⟩, ⟨.blockComment, "/*d*/".toList, false, 1⟩,
    ⟨.word, ['e'], false, 1⟩, ⟨.punct, [';'], false, 1⟩, ⟨.punct, ['}'], false, 1⟩]

theorem format_of_visits_importedBlock :
    tokenize "import b;c\x7b/*d*/e;\x7d".toList = .ok importedBlock ∧ NoLineComment importedBlock ∧
      format ⟨2, 100⟩ "import b;c\x7b/*d*/e;\x7d".toList =
        .ok "import b;\n\nc \x7b\n  /*d*/\n  e;\n\x7d\n".toList ∧
      (∀ v ∈ visits ⟨2, 100⟩ {} none importedBlock, v.fuses = false ∧ v.encloses = false) ∧
      format ⟨2, 100⟩ "import b;\n\nc \x7b\n  /*d*/\n  e;\n\x7d\n".toList =
        .ok "import b;\n\nc \x7b\n  /*d*/\n  e;\n\x7d\n".toList := by
  have ht : tokenize "import b;c\x7b/*d*/e;\x7d".toList = .ok importedBlock := by decide +kernel
  have hk : NoLineComment importedBlock := by
    intro t h
    revert t
    decide
  have hf : format ⟨2, 100⟩ "import b;c\x7b/*d*/e;\x7d".toList =
      .ok "import b;\n\nc \x7b\n  /*d*/\n  e;\n\x7d\n".toList := by decide +kernel
  have hv : ∀ v ∈ visits ⟨2, 100⟩ {} none importedBlock, v.fuses = false ∧ v.encloses = false := by
    have hall : ((visits ⟨2, 100⟩ {} none importedBlock).all fun v => !v.fuses && !v.encloses) =
        true := by decide +kernel
    intro v hv
    simpa using List.all_eq_true.1 hall v hv
  exact ⟨ht, hk, hf, hv, format_of_visits ht hk hf hv⟩

end JpaScaffold.Java.Layout
