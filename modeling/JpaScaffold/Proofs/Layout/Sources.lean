import JpaScaffold.Proofs.Layout.Members

/-!
# Sources are laid out

A source of a package, imports, a comment and members is laid out. What is written says what the
source says, with the import statements in order.
-/
namespace JpaScaffold.Java.Layout

open Text (isBlank)

variable {o : Options} {s : State} {t : Token} {ts rest : List Token} {w ws : List Content}
  {cs line front doc : List Char} {imports behind : List (List Char)}

/-! ## Texts and their tokens -/

theorem exists_spelled (h : contents cs = some w) (hk : ∀ c ∈ w, c.1 ≠ .lineComment) :
    ∃ ts, Lexed 0 true cs ts ∧ ts.map Token.content = w ∧
      Spells .tokens AtGap cs (ts.map Token.unlined) ∧ Spells .contents AtGap cs w := by
  obtain ⟨ts, hlexed, rfl⟩ := exists_lexed h true
  have hts : ∀ t ∈ ts, t.kind ≠ .lineComment := fun t ht => hk t.content (List.mem_map_of_mem ht)
  refine ⟨ts, hlexed, rfl, fun next hn => hlexed.scan_append hts hn, fun next hn => ?_⟩
  change contents (cs ++ next) = (contents next).map _
  rw [← contents_of_scan true, hlexed.scan_append hts hn, ← contents_of_scan true, Option.map_map,
    Option.map_map]
  simp [Function.comp_def, content_unlined]

/-- Every blank is a space in front of something else. -/
def Tidy : List Char → Bool
  | [] => true
  | [c] => !isBlank c
  | c :: d :: rest => (!isBlank c || (c == ' ' && !isBlank d)) && Tidy (d :: rest)

theorem Tidy.of_append {a b : List Char} (h : Tidy (a ++ b) = true) : Tidy b = true := by
  induction a with
  | nil => exact h
  | cons c a ih =>
    apply ih
    cases hrest : a ++ b with
    | nil => rfl
    | cons d rest =>
      rw [List.cons_append, hrest, Tidy, Bool.and_eq_true] at h
      exact h.2

/-- The tokens of a tidy text, joined, are the text. -/
theorem spread_of_lexed {line : Nat} {spaced : Bool} (h : Lexed line spaced cs ts)
    (ht : Tidy cs = true) (hs : spaced = true → ∃ c rest, cs = c :: rest ∧ isBlank c = false) :
    spread ts = if spaced then ' ' :: cs else cs := by
  -- a tidy text has one blank between two tokens at most, and it becomes the mark of the second one
  induction h with
  | nil _ spaced =>
    cases spaced with
    | true =>
      obtain ⟨_, _, hnil, -⟩ := hs rfl
      cases hnil
    | false => rfl
  | @blank _ c cs _ spaced hb _ ih =>
    cases spaced with
    | true =>
      obtain ⟨_, _, heq, hno⟩ := hs rfl
      cases heq
      rw [hb] at hno
      cases hno
    | false =>
      cases cs with
      | nil => simp [Tidy, hb] at ht
      | cons d rest =>
        simp only [Tidy, hb, Bool.not_true, Bool.false_or, Bool.and_eq_true, beq_iff_eq,
          Bool.not_eq_true'] at ht
        rw [ih ht.2 fun _ => ⟨d, rest, rfl, ht.1.2⟩, ht.1.1]
        rfl
  | @lexeme _ c cs l ts spaced hb hx _ ih =>
    have happ := lexeme_append hx
    have hbehind : Tidy l.rest = true := Tidy.of_append (happ ▸ ht)
    rw [spread_cons, ih hbehind (fun h => absurd h (by decide)), ← happ]
    cases spaced with
    | true => rfl
    | false => rfl

theorem joinTokens_of_lexed (h : Lexed 0 true cs ts) (ht : Tidy cs = true)
    (hs : ∃ c rest, cs = c :: rest ∧ isBlank c = false) : joinTokens ts = cs := by
  have hspread := spread_of_lexed h ht fun _ => hs
  cases ts with
  | nil => cases hspread
  | cons t ts =>
    rw [spread_cons, h.spaced_head rfl] at hspread
    simpa [joinTokens_cons] using hspread

/-! ## Import statements -/

/-- The line is an import statement without blanks that a layout would not write. -/
structure IsImport (line : List Char) : Prop where
  spelled : ∃ ws, contents line = some ((.word, "import".toList) :: (ws ++ [mark ';'])) ∧ Balanced ws
  tidy : Tidy line = true
  start : ∃ c rest, line = c :: rest ∧ isBlank c = false

def said (line : List Char) : List Content := (contents line).getD []

/-- The tokens of an import statement. -/
def ImportTokens (ts : List Token) : Prop :=
  ∃ ws, ts.map Token.content = (.word, "import".toList) :: (ws ++ [mark ';']) ∧ Balanced ws

theorem IsImport.exists_tokens (h : IsImport line) :
    ∃ ts, ImportTokens ts ∧ joinTokens ts = line ∧ ts.map Token.content = said line ∧
      Spells .tokens AtGap line ts ∧ Spells .contents AtGap line (said line) := by
  obtain ⟨ws, hsays, hws⟩ := h.spelled
  have hsaid : said line = (.word, "import".toList) :: (ws ++ [mark ';']) := by
    rw [said, hsays]
    rfl
  have hcode : ∀ c ∈ said line, c.1 ≠ .lineComment := by
    rw [hsaid]
    refine List.forall_mem_cons.2 ⟨by decide, List.forall_mem_append.2 ⟨?_, ?_⟩⟩
    · exact fun c hc => (hws.isCode c hc).1
    · exact List.forall_mem_singleton.2 (isCode_mark _).1
  rw [← hsaid] at hsays
  obtain ⟨ts, hlexed, hts, htokens, hcontents⟩ := exists_spelled hsays hcode
  refine ⟨ts.map Token.unlined, ⟨ws, ?_, hws⟩, ?_, ?_, htokens, hcontents⟩
  · rw [map_content_unlined, hts, hsaid]
  · rw [joinTokens_unlined, joinTokens_of_lexed hlexed h.tidy h.start]
  · rw [map_content_unlined, hts]

theorem Resting.importing (h : Resting s) (imports : List (List Char)) :
    Resting { s with imports } :=
  ⟨⟨h.pending, h.nesting, h.assigned⟩, h.carry⟩

theorem endStatement_of_resting (hs : Resting s) (hk : s.scope.kind = .file)
    (hts : startsImport ts = true) (assigned : Bool) :
    State.endStatement { s with pending := ts, assigned } o =
      { s with imports := s.imports ++ [joinTokens ts] } := by
  rw [endStatement_of_import (s := { s with pending := ts, assigned }) hk hts]
  obtain ⟨⟨hp, -, ha⟩, hc⟩ := hs
  simp [State.clearStatement, State.text, withCarry, hp, ha, hc]

/-- An import statement waits to be sorted. -/
theorem trace_import (hs : Resting s) (hk : s.scope.kind = .file) (hts : ImportTokens ts)
    (rest : List Token) (previous : Option Token) :
    ∃ previous', ∀ final,
      Trace o { s with imports := s.imports ++ [joinTokens ts] } previous' rest final →
        Trace o s previous (ts ++ rest) final := by
  obtain ⟨ws, hts, hws⟩ := hts
  rw [← List.cons_append] at hts
  obtain ⟨us, more, rfl, hus, hmore⟩ := List.map_eq_append_iff.1 hts
  obtain ⟨t, more, rfl, ht, hnil⟩ := List.map_eq_cons_iff.1 hmore
  obtain rfl := List.map_eq_nil_iff.1 hnil
  obtain ⟨u, us', rfl, hu, -⟩ := List.map_eq_cons_iff.1 hus
  have hbalanced : Balanced ((.word, "import".toList) :: ws) := .plain (.inl rfl) hws
  obtain ⟨assigned, hlays, -⟩ := hbalanced.lays (o := o) hus s ([t] ++ rest)
  obtain ⟨previous', -, htrace⟩ := hlays previous
  have hmove : Move o (s.reading (u :: us') assigned) previous' t rest _ :=
    .statement (isPunct_of_mark ht) hs.nesting
  have hstarts : startsImport (u :: us' ++ [t]) = true := by
    obtain ⟨hkind, htext⟩ := Prod.mk.inj hu
    simp [startsImport, Token.isTheWord, hkind, htext]
  have hpending : s.pending ++ (u :: us') ++ [t] = u :: us' ++ [t] := by simp [hs.pending]
  have hstate := endStatement_of_resting (o := o) hs hk hstarts assigned
  rw [← hpending] at hstate
  refine ⟨some t, fun final hf => ?_⟩
  rw [← hpending, ← hstate] at hf
  rw [List.append_assoc]
  exact htrace final (.cons hmove hf)

theorem trace_imports {tss : List (List Token)} (hs : Resting s) (hk : s.scope.kind = .file)
    (htss : ∀ ts ∈ tss, ImportTokens ts) (rest : List Token) (previous : Option Token) :
    ∃ previous', ∀ final,
      Trace o { s with imports := s.imports ++ tss.map joinTokens } previous' rest final →
        Trace o s previous (tss.flatten ++ rest) final := by
  induction tss generalizing s previous with
  | nil =>
    refine ⟨previous, fun final hf => ?_⟩
    simpa using hf
  | cons ts tss ih =>
    obtain ⟨hts, htss⟩ := List.forall_mem_cons.1 htss
    obtain ⟨previous₁, hfirst⟩ := trace_import (o := o) hs hk hts (tss.flatten ++ rest) previous
    obtain ⟨previous', hmore⟩ :=
      ih (hs.importing (s.imports ++ [joinTokens ts])) hk htss previous₁
    refine ⟨previous', fun final hf => ?_⟩
    rw [List.flatten_cons, List.append_assoc]
    refine hfirst final (hmore final ?_)
    simpa using hf

/-! ## The comment behind the imports -/

theorem spells_importLines (h : ∀ line ∈ imports, IsImport line) :
    Spells .contents AtGap (page imports) (imports.flatMap said) := by
  rw [List.flatMap_def]
  refine spells_page (List.forall₂_map_right_iff.2 (List.forall₂_same.2 fun line hline => ?_))
  obtain ⟨_, -, -, -, -, hcontents⟩ := (h line hline).exists_tokens
  exact hcontents

theorem spells_doc (hdoc : Reads .blockComment doc []) (hlaid : laidComment 0 doc = doc) :
    Spells .contents AtGap doc [(.blockComment, doc)] := by
  refine spells_of_reads fun next _ => ?_
  have hreads := reads_laidComment hdoc 0 next
  rwa [hlaid] at hreads

/-- The comment is written behind the imports, which are put in order in front of it. -/
theorem Kept.imported {previous previous' : Option Token} {us : List Token}
    (hk : Kept s previous us w) (hs : Resting s) (houter : s.outer = [])
    (hkind : s.scope.kind = .file) (helement : s.scope.inElement = false)
    (himports : ∀ line ∈ imports, IsImport line) (hdoc : Reads .blockComment doc [])
    (hlaid : laidComment 0 doc = doc) (hl : Legible rest) (ha : Apart (previous'.toList ++ rest)) :
    Kept (State.decorate { s with imports } o (commentLines doc)) previous' rest
      (w ++ ((sortedImports imports).flatMap said ++ [(.blockComment, doc)])) := by
  have hdue : State.dueImports { s with imports } = sortedImports imports := by
    simp [State.dueImports, hkind, helement]
  have hkept : State.keptImports { s with imports } = [] := by
    simp [State.keptImports, hkind, helement]
  have hpage : page (State.setIn { s with imports } o (commentLines doc)) = doc := by
    have hindent : State.indent { s with imports } o = 0 := by simp [State.indent, houter]
    rw [State.setIn, hindent, page_commentLines hdoc, hlaid]
    rfl
  have hi : Spells .contents AtGap (page (State.dueImports { s with imports }))
      ((sortedImports imports).flatMap said) := by
    rw [hdue]
    exact spells_importLines fun line hline => himports line (mem_sortedImports.1 hline)
  have hq : Spells .contents AtGap (page (State.setIn { s with imports } o (commentLines doc)))
      [(.blockComment, doc)] := by
    rw [hpage]
    exact spells_doc hdoc hlaid
  have hu := (hk.page_spells hs.pending hs.carry).1
  rw [decorate_eq]
  exact kept_of_gap hkept hs.pending hs.carry hl ha
    (spells_emission hi hu hq (commentLines_ne_nil hdoc) false)

/-! ## Whole sources -/

/-- A source in sections: the package, the imports, a comment and members. -/
structure Sections (front : List Char) (imports : List (List Char)) (doc : List Char)
    (behind : List (List Char)) (clause w : List Content) : Prop where
  spelled : contents front = some (clause ++ [mark ';'])
  isClause : Clause clause
  areImports : ∀ line ∈ imports, IsImport line
  isComment : Reads .blockComment doc []
  laid : laidComment 0 doc = doc
  spells : Spells .contents AtGap (page behind) w
  members : Members w
  nonempty : behind ≠ []

theorem exists_flatten {α β : Type} {f : α → β} {l : List α} {ls : List (List β)}
    (h : l.map f = ls.flatten) : ∃ ks : List (List α), l = ks.flatten ∧ ks.map (List.map f) = ls := by
  induction ls generalizing l with
  | nil => exact ⟨[], List.map_eq_nil_iff.1 h, rfl⟩
  | cons first ls ih =>
    obtain ⟨as, bs, rfl, rfl, hbs⟩ := List.map_eq_append_iff.1 h
    obtain ⟨ks, rfl, rfl⟩ := ih hbs
    exact ⟨as :: ks, rfl, rfl⟩

theorem exists_importTokens (h : ∀ line ∈ imports, IsImport line) :
    ∃ tss, (∀ ts ∈ tss, ImportTokens ts) ∧ tss.map joinTokens = imports ∧
      tss.flatten.map Token.content = imports.flatMap said ∧
      List.Forall₂ (Spells .tokens AtGap) imports tss := by
  induction imports with
  | nil => exact ⟨[], List.forall_mem_nil _, rfl, rfl, .nil⟩
  | cons line imports ih =>
    obtain ⟨hline, himports⟩ := List.forall_mem_cons.1 h
    obtain ⟨ts, hts, hjoin, hsaid, htokens, -⟩ := hline.exists_tokens
    obtain ⟨tss, htss, hjoins, hsaids, hforall⟩ := ih himports
    refine ⟨ts :: tss, List.forall_mem_cons.2 ⟨hts, htss⟩, ?_, ?_, .cons htokens hforall⟩
    · rw [List.map_cons, hjoin, hjoins]
    · rw [List.flatten_cons, List.map_append, hsaid, hsaids, List.flatMap_cons]

theorem page_page (lines : List (List Char)) {more : List (List Char)} (h : more ≠ []) :
    page (lines ++ [page more]) = page (lines ++ more) := by
  cases lines with
  | nil => simp
  | cons line lines => rw [page_append (by simp) (by simp), page_append (by simp) h, page_singleton]

variable {clause : List Content}

/-- The tokens of a source, section by section. -/
structure SectionTokens (head : List Token) (tss : List (List Token)) (us : List Token)
    (imports : List (List Char)) (doc : List Char) (clause w : List Content) : Prop where
  front : head.map Token.content = clause ++ [mark ';']
  areImports : ∀ ts ∈ tss, ImportTokens ts
  joined : tss.map joinTokens = imports
  spoken : tss.flatten.map Token.content = imports.flatMap said
  behind : us.map Token.content = (.blockComment, doc) :: w

theorem SectionTokens.of_unlined {head us : List Token} {tss : List (List Token)}
    (h : SectionTokens (head.map Token.unlined) (tss.map (List.map Token.unlined))
      (us.map Token.unlined) imports doc clause w) :
    SectionTokens head tss us imports doc clause w where
  front := map_content_unlined head ▸ h.front
  areImports := by
    intro ts hts
    obtain ⟨ws, heq, hws⟩ := h.areImports _ (List.mem_map_of_mem hts)
    exact ⟨ws, map_content_unlined ts ▸ heq, hws⟩
  joined := by
    rw [← h.joined, List.map_map]
    exact List.map_congr_left fun ts _ => (joinTokens_unlined ts).symm
  spoken := by rw [← h.spoken, ← List.map_flatten, map_content_unlined]
  behind := map_content_unlined us ▸ h.behind

/-- The source behind its first line is read as the tokens of the other sections. -/
theorem Sections.scan_eq (h : Sections front imports doc behind clause w) :
    ∃ head tss us, SectionTokens head tss us imports doc clause w ∧
      scan false (unlines (front :: (imports ++ doc :: behind))) =
        some (head ++ (tss.flatten ++ us)) := by
  obtain ⟨head, hhead, hfront⟩ := exists_lexed h.spelled false
  obtain ⟨tss, htss, hjoins, hsaids, hforall⟩ := exists_importTokens h.areImports
  have hcomment := (spells_doc h.isComment h.laid).atLineEnd
  rw [← page_singleton doc] at hcomment
  have hbehind := hcomment.page_append h.spells h.nonempty
  have hcode : ∀ c ∈ [(.blockComment, doc)] ++ w, c.1 ≠ .lineComment :=
    List.forall_mem_cons.2 ⟨by simp, fun c hc => (h.members.isCode c hc).1⟩
  have hcontents : contents (page ([doc] ++ behind)) = some ([(.blockComment, doc)] ++ w) := by
    have hnil := hbehind.contents_eq atLineEnd_nil.atGap
    simpa using hnil
  obtain ⟨us, -, hus, htokens, -⟩ := exists_spelled hcontents hcode
  have hheadCode : ∀ t ∈ head, t.kind ≠ .lineComment := by
    intro t ht
    have hmem : t.content ∈ clause ++ [mark ';'] := hfront ▸ List.mem_map_of_mem ht
    rcases List.mem_append.1 hmem with hmem | hmem
    · exact (h.isClause.balanced.isCode _ hmem).1
    · have hcode := (isCode_mark ';').1
      rwa [← List.mem_singleton.1 hmem] at hcode
  refine ⟨head.map Token.unlined, tss, us.map Token.unlined, ⟨?_, htss, hjoins, hsaids, ?_⟩, ?_⟩
  · rw [map_content_unlined, hfront]
  · rw [map_content_unlined, hus]
    rfl
  · have hpage := spells_page (List.rel_append hforall (.cons htokens .nil))
    rw [page_page imports (by simp)] at hpage
    have hlines : unlines (front :: (imports ++ doc :: behind)) =
        front ++ '\n' :: (page (imports ++ ([doc] ++ behind)) ++ ['\n']) := by
      rw [← unlines_eq_page (by simp)]
      simp [unlines]
    rw [hlines, hhead.scan_append hheadCode (atGap_cons (by decide) _), scan_blank (by decide),
      hpage.scan_eq (atGap_cons (by decide) _), scan_blank (by decide), scan_nil]
    simp

theorem Sections.exists_tokens (h : Sections front imports doc behind clause w) :
    ∃ head tss us, SectionTokens head tss us imports doc clause w ∧
      tokenize (unlines (front :: (imports ++ doc :: behind))) =
        .ok (head ++ (tss.flatten ++ us)) := by
  obtain ⟨head, tss, us, hsections, hscan⟩ := h.scan_eq
  rw [← scan_of_tokensFrom 1] at hscan
  unfold tokenize
  cases htokens : tokensFrom 1 false (unlines (front :: (imports ++ doc :: behind))) with
  | error e =>
    rw [htokens] at hscan
    cases hscan
  | ok ts =>
    simp only [htokens, Except.toOption, Option.map_some, Option.some.injEq] at hscan
    obtain ⟨as, more, rfl, rfl, hmore⟩ := List.map_eq_append_iff.1 hscan
    obtain ⟨bs, cs, rfl, hbs, rfl⟩ := List.map_eq_append_iff.1 hmore
    obtain ⟨bss, rfl, rfl⟩ := exists_flatten hbs
    exact ⟨as, bss, cs, hsections.of_unlined, rfl⟩

theorem resting_start : Resting {} := ⟨⟨rfl, rfl, rfl⟩, rfl⟩

/-- A source in sections is laid out, and what is written says what the source says, but for the
order of the imports. -/
theorem Sections.exists_format (h : Sections front imports doc behind clause w) (o : Options) :
    ∃ text, format o (unlines (front :: (imports ++ doc :: behind))) = .ok text ∧
      contents (unlines (front :: (imports ++ doc :: behind))) =
        some (clause ++ [mark ';'] ++ imports.flatMap said ++ (.blockComment, doc) :: w) ∧
      contents text =
        some (clause ++ [mark ';'] ++ (sortedImports imports).flatMap said ++
          (.blockComment, doc) :: w) := by
  obtain ⟨head, tss, us, hsections, htokens⟩ := h.exists_tokens
  obtain ⟨t, us, rfl, ht, hus⟩ := List.map_eq_cons_iff.1 hsections.behind
  obtain ⟨front, last, rfl, hfront, hlast⟩ := List.map_eq_append_iff.1 hsections.front
  obtain ⟨semicolon, last, rfl, hsemicolon, hnil⟩ := List.map_eq_cons_iff.1 hlast
  obtain rfl := List.map_eq_nil_iff.1 hnil
  have hl := legible_of_tokenize htokens
  have ha := apart_of_tokenize htokens
  -- the package
  obtain ⟨s₁, hs₁, houter, hkind, helement, hlays⟩ :=
    lays_statement (o := o) resting_start h.isClause hfront hsemicolon (tss.flatten ++ t :: us)
  obtain ⟨previous₁, hkept, htrace⟩ := hlays none
  have hkept := hkept [] (kept_start hl ha)
  have himports₁ : s₁.imports = [] := hkept.imports
  -- the imports
  obtain ⟨previous₂, htrace'⟩ :=
    trace_imports (o := o) hs₁ hkind hsections.areImports (t :: us) previous₁
  rw [himports₁, List.nil_append, hsections.joined] at htrace'
  -- the comment
  have hbehind : Legible (t :: us) := hl.of_append_right.of_append_right
  have hapart : Apart (t :: us) := ha.of_append_right.of_append_right
  have hcomment : Move o { s₁ with imports } previous₂ t us _ :=
    .blockComment (congrArg Prod.fst ht) hs₁.atStart
  rw [show t.text = doc from congrArg Prod.snd ht] at hcomment
  have hkept' : Kept _ (some t) us _ := hkept.imported (o := o) hs₁ houter hkind helement
    h.areImports h.isComment h.laid hbehind.2 hapart
  -- the members
  have hs₂ : Resting (State.decorate { s₁ with imports } o (commentLines doc)) :=
    (hs₁.importing imports).decorate _
  obtain ⟨s₃, hs₃, houter₃, -, hlays₃⟩ := h.members.returns (o := o) hus hs₂ fresh_nil
  obtain ⟨previous₃, hkept₃, htrace₃⟩ := hlays₃ (some t)
  rw [List.append_nil] at hkept₃ htrace₃
  have hfinish : finish o s₃ = .ok (unlines (s₃.finished o)) := by
    refine finish_eq_ok.2 ⟨hs₃.pending, hs₃.nesting, ?_, rfl⟩
    rw [houter₃, decorate_eq]
    exact houter
  have hrun : Trace o {} none (front ++ [semicolon] ++ (tss.flatten ++ t :: us)) s₃ :=
    htrace _ (htrace' _ (.cons hcomment (htrace₃ _ (.nil _ _))))
  have hread := (hkept₃ _ hkept').contents_finish hfinish
  refine ⟨_, format_eq_ok.2 ⟨_, s₃, htokens, hrun, hfinish⟩, ?_, ?_⟩
  · refine contents_eq_some_iff.2 ⟨_, htokens, ?_⟩
    rw [List.map_append, hsections.front, List.map_append, hsections.spoken, hsections.behind]
    simp
  · rw [hread, List.map_append, hfront, hus]
    simp [hsemicolon]

end JpaScaffold.Java.Layout
