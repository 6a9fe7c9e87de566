import JpaScaffold.Proofs.Layout.Waiting

/-!
# Where a layout places imports

The text of a layout whose comments fit is read back as an arrangement of the items of its source:
the steps in their order, and the imports in front of the steps before which they were written. The
invariant of a run says which items are placed, which steps are held for a line to come, and that
the lines written, the statement that is being read and the imports that wait spell their code.
-/
namespace JpaScaffold.Java.Layout

open Text (trimEnd)

variable {o : Options} {s : State} {previous : Option Token} {t : Token} {rest : List Token}
  {w : List Content}

/-! ## Lines that wait -/

/-- The line of an import, with comments behind it or without. -/
def Waits (line : List Char) : Prop :=
  ∃ code tail q, line = code ++ tail ∧ Spells .contents AtGap code q ∧
    (tail = [] ∨ ∃ more, tail = ' ' :: '/' :: '/' :: more ∧ '\n' ∉ more)

theorem Spells.contents_self {P : List Char → Prop} {cs : List Char} (h : Spells .contents P cs w)
    (hP : P []) : contents cs = some w := by
  have hread := h.contents_eq hP
  rw [List.append_nil, contents_nil] at hread
  simpa using hread

theorem Spells.unique {P Q : List Char → Prop} {cs : List Char} {w' : List Content}
    (h : Spells .contents P cs w) (h' : Spells .contents Q cs w') (hP : P []) (hQ : Q []) :
    w = w' := by
  have hw := h.contents_self hP
  rw [h'.contents_self hQ] at hw
  exact (Option.some.inj hw).symm

theorem code_imported {line : List Char} (h : Spells .contents AtLineEnd line w) :
    (Item.imported line).code = codeOf w := by
  rw [Item.code, h.contents_self atLineEnd_nil]
  rfl

theorem Waits.spells {line : List Char} (h : Waits line) :
    ∃ w, Spells .contents AtLineEnd line w := by
  obtain ⟨code, tail, q, rfl, hcode, rfl | ⟨more, rfl, hmore⟩⟩ := h
  · exact ⟨q, by simpa using hcode.atLineEnd⟩
  · have hcomment : Spells .contents AtLineEnd ('/' :: '/' :: more) [(.lineComment, '/' :: '/' :: more)] :=
      spells_of_reads fun next hn => reads_lineComment hmore hn
    exact ⟨_, hcode.append (hcomment.blank (by decide)) fun _ _ => atGap_cons (by decide) _⟩

theorem Waits.comment {line text : List Char} (h : Waits line)
    (htext : ∃ more, text = '/' :: '/' :: more ∧ '\n' ∉ more) : Waits (line ++ ' ' :: text) := by
  obtain ⟨code, tail, q, rfl, hcode, htail⟩ := h
  obtain ⟨more, rfl, hmore⟩ := htext
  refine ⟨code, tail ++ ' ' :: '/' :: '/' :: more, q, List.append_assoc .., hcode, .inr ?_⟩
  rcases htail with rfl | ⟨more', rfl, hmore'⟩
  · exact ⟨more, rfl, hmore⟩
  · refine ⟨more' ++ ' ' :: '/' :: '/' :: more, by simp, ?_⟩
    simp [hmore, hmore']

theorem spells_waiting {lines : List (List Char)} (h : ∀ line ∈ lines, Waits line) :
    ∃ q, Spells .contents AtLineEnd (page lines) q ∧
      codeOf q = (lines.map Item.imported).flatMap Item.code := by
  induction lines with
  | nil => exact ⟨[], spells_nil _ _, rfl⟩
  | cons line lines ih =>
    obtain ⟨hline, hlines⟩ := List.forall_mem_cons.1 h
    obtain ⟨q, hq⟩ := hline.spells
    obtain ⟨qs, hqs, hcode⟩ := ih hlines
    have hfirst : Spells .contents AtLineEnd (page [line]) q := by rwa [page_singleton]
    refine ⟨q ++ qs, ?_, ?_⟩
    · cases lines with
      | nil =>
        obtain rfl := hqs.eq_nil atLineEnd_nil
        simpa using hfirst
      | cons => exact hfirst.page_append hqs (by simp)
    · rw [codeOf_append, hcode, List.map_cons, List.flatMap_cons, code_imported hq]

theorem exists_spells_importLines {u : List Content} (hu : Spells .contents AtLineEnd (page s.out) u)
    (h : ∀ line ∈ s.imports, Waits line) :
    ∃ q, Spells .contents AtLineEnd (page (s.out ++ s.importLines)) (u ++ q) ∧
      codeOf q = ((sortedImports s.imports).map Item.imported).flatMap Item.code := by
  obtain ⟨q, hq, hcode⟩ := spells_waiting fun line hl => h line (mem_sortedImports.1 hl)
  refine ⟨q, ?_, hcode⟩
  by_cases hnone : s.imports = []
  · rw [hnone, sortedImports_nil] at hq
    obtain rfl := hq.eq_nil atLineEnd_nil
    simpa [importLines_of_nil hnone] using hu
  · have hne := sortedImports_ne_nil hnone
    unfold State.importLines
    rw [if_neg (by simp [hnone])]
    split
    · exact hu.page_append hq hne
    · exact hu.page_append (hq.page_gap hne) (by simp)

theorem contents_unlines {lines : List (List Char)} (h : Spells .contents AtLineEnd (page lines) w) :
    contents (unlines lines) = some w := by
  by_cases hne : lines = []
  · subst hne
    obtain rfl := h.eq_nil atLineEnd_nil
    exact contents_nil
  · rw [unlines_eq_page hne, h.contents_eq (atLineEnd_cons []), contents_blank (by decide),
      contents_nil]
    simp

/-! ## The invariant of a run -/

/-- The items `placed` are written and the steps `held` have been read for a line to come. -/
structure Placed (s : State) (previous : Option Token) (rest : List Token) (placed : List Item)
    (held : List Visit) : Prop where
  /-- Where imports of the file wait, nothing is known of the last line but what it spells. -/
  kept : ∃ q u h, Kept s.cleared q rest (u ++ h) ∧
    (q = previous ∨ s.imports ≠ [] ∧ s.scope.kind = .file) ∧
    Spells .contents AtLineEnd (page s.out) u ∧ codeOf u = placed.flatMap Item.code ∧
    codeOf h = (held.map Item.step).flatMap Item.code
  waits : ∀ line ∈ s.imports, Waits line
  lines : ∀ t ∈ rest, 0 < t.line
  idle : s.pending = [] → s.carry = none → held = []
  importing : s.importing = true → ∀ v ∈ held, v.declaresType = false

theorem apart_foremost (h : Apart rest) (hl : ∀ t ∈ rest, 0 < t.line) :
    Apart ((some foremost).toList ++ rest) :=
  ⟨fun _ u hu => hl u (List.mem_of_head? hu), h⟩

theorem Kept.forget {q : Option Token} (h : Kept s q rest w) (hl : ∀ t ∈ rest, 0 < t.line) :
    Kept s (some foremost) rest w := by
  obtain ⟨u, v, hw, hu, hv, -⟩ := h.spelled
  exact ⟨h.imports, h.plain, h.legible, apart_foremost h.apart.of_append_right hl, h.continued,
    u, v, hw, hu, hv, fun _ _ hlast => absurd rfl (hlast foremost rfl)⟩

theorem Kept.served {u h : List Content} (hk : Kept s.cleared (some foremost) rest (u ++ h))
    (hu : Spells .contents AtLineEnd (page s.out) u) (hw : ∀ line ∈ s.imports, Waits line) :
    ∃ q, Kept s.served (some foremost) rest (u ++ q ++ h) ∧
      Spells .contents AtLineEnd (page s.served.out) (u ++ q) ∧
      codeOf q = (s.dueImports.map Item.imported).flatMap Item.code := by
  obtain ⟨q, hq, hcode⟩ : ∃ q, Spells .contents AtLineEnd (page s.served.out) (u ++ q) ∧
      codeOf q = (s.dueImports.map Item.imported).flatMap Item.code := by
    unfold State.served State.dueLines State.dueImports
    split
    · exact exists_spells_importLines hu hw
    · exact ⟨[], by simpa using hu, rfl⟩
  refine ⟨q, ⟨rfl, hk.plain, hk.legible, hk.apart, hk.continued, ?_⟩, hq, hcode⟩
  obtain ⟨u', v, hsplit, hu', hv, -⟩ := hk.spelled
  obtain rfl : u = u' := hu.unique hu' atLineEnd_nil atLineEnd_nil
  rw [List.append_assoc, List.append_cancel_left_eq] at hsplit
  refine ⟨u ++ q, v, ?_, hq, hv, fun _ _ hlast => absurd rfl (hlast foremost rfl)⟩
  rw [hsplit, ← List.append_assoc]
  rfl

/-- How one step of a run changes what is placed and what is held. -/
inductive Advance (trails : Prop) (s s' : State) (v : Visit) (placed : List Item)
    (held : List Visit) : List Item → List Visit → Prop
  | held (himports : s'.imports = s.imports) (hkept : s'.keptImports = s.keptImports)
      (hends : v.endsImport = false)
      (hbegins : v.readsImport = true → s.importing = false → held = []) : Advance trails s s' v placed held placed (held ++ [v])
  | written (himports : s'.imports = s.keptImports) (hreads : v.readsImport = false) :
      Advance trails s s' v placed held
        (placed ++ s.dueImports.map .imported ++ (held ++ [v]).map .step) []
  | closed {front back : List Visit} (hsplit : front ++ back = held ++ [v])
      (hback : ∀ w ∈ back, w.declaresType = false) (himports : s'.imports = s.imports)
      (hkept : held = [] ∨ s.keptImports = s.imports) (hplain : v.declaresType = false)
      (hreads : v.readsImport = false) :
      Advance trails s s' v placed held (placed ++ front.map .step) back
  | comment {text : List Char} (ht : trails) (hc : ∃ more, text = ' ' :: '/' :: '/' :: more)
      (himports : s'.imports = appendToLast text s.imports) (hheld : held = [])
      (hplain : v.declaresType = false) (hreads : v.readsImport = false) :
      Advance trails s s' v placed held (placed ++ [.step v]) []
  | imported (himports : s'.imports = s.imports ++ [v.importLine]) (hends : v.endsImport = true)
      (hplain : ∀ w ∈ held, w.declaresType = false) :
      Advance trails s s' v placed held placed []

variable {placed : List Item} {held : List Visit} {taken : List Token} {p : Progress}

theorem mem_imports_of_kept {line : List Char} (h : line ∈ s.keptImports) : line ∈ s.imports := by
  unfold State.keptImports at h
  split at h
  · cases h
  · exact h

theorem Placed.lines_behind (h : Placed s previous rest placed held) (ht : rest = taken ++ p.rest) :
    ∀ u ∈ p.rest, 0 < u.line :=
  fun u hu => h.lines u (by rw [ht]; exact List.mem_append_right _ hu)

theorem Placed.continued (h : Placed s previous rest placed held) :
    s.carry ≠ none → isContinuation (s.pending ++ rest).head? = true := by
  obtain ⟨_, _, _, hk, -⟩ := h.kept
  exact hk.continued

/-- Nothing is held where an import begins: it would be carried in front of the word that begins
it. -/
theorem Placed.held_of_begins (h : Placed s previous (taken ++ rest) placed held)
    (hreads : Visit.readsImport ⟨s, taken, rest⟩ = true) (hnot : s.importing = false) : held = [] := by
  obtain ⟨hfile, hstart⟩ : s.scope.kind = .file ∧ startsImport (s.pending ++ taken) = true := by
    simpa using (Bool.and_eq_true_iff.1 hreads).1
  have hp : s.pending = [] := by
    by_contra hp
    obtain ⟨x, xs, hx⟩ := List.exists_cons_of_ne_nil hp
    rw [hx] at hstart
    have himporting : s.importing = true := by
      rw [State.importing, hfile, hx]
      exact hstart
    rw [himporting] at hnot
    cases hnot
  refine h.idle hp ?_
  by_contra hc
  have hword := h.continued hc
  rw [hp] at hword hstart
  cases taken with
  | nil => cases hstart
  | cons u us =>
    rw [List.nil_append, List.cons_append, List.head?_cons, not_isContinuation_import hstart] at hword
    cases hword

theorem Placed.plain_behind (h : Placed s previous (t :: rest) placed held)
    (hm : Move o s previous t rest p) (ht : t :: rest = taken ++ p.rest)
    (himporting : p.state.importing = true) :
    ∀ w ∈ held ++ [⟨s, taken, p.rest⟩], w.declaresType = false := by
  rw [hm.importing ht, Bool.and_eq_true] at himporting
  have hheld : ∀ w ∈ held, w.declaresType = false := by
    cases hs : s.importing with
    | true => exact h.importing hs
    | false =>
      rw [ht] at h
      rw [h.held_of_begins himporting.1 hs]
      simp
  intro w hw
  rcases List.mem_append.1 hw with hw | hw
  · exact hheld w hw
  · rw [List.mem_singleton.1 hw]
    exact Visit.declaresType_of_readsImport himporting.1

/-- A step that is held. -/
theorem Placed.move_held (h : Placed s previous (t :: rest) placed held)
    (hmove : Move o s previous t rest p) (ht : t :: rest = taken ++ p.rest)
    (hf : Visit.Fits ⟨s, taken, p.rest⟩)
    (hm : Move o s.cleared (some foremost) t rest ⟨p.state.cleared, p.previous, p.rest⟩)
    (hout : p.state.out = s.out) (himports : p.state.imports = s.imports)
    (hopen : p.state.pending ≠ [] ∨ p.state.carry ≠ none)
    (hends : Visit.endsImport ⟨s, taken, p.rest⟩ = false) :
    Placed p.state p.previous p.rest placed (held ++ [⟨s, taken, p.rest⟩]) := by
  obtain ⟨q, u, w, hk, -, hu, hcode, hheld⟩ := h.kept
  have hkept := (hk.forget h.lines).move hm ht hf hends
  refine ⟨⟨p.previous, u, w ++ Visit.written ⟨s.cleared, taken, p.rest⟩ o, ?_, .inl rfl, ?_, hcode,
    ?_⟩, ?_, h.lines_behind ht, ?_, h.plain_behind hmove ht⟩
  · rw [← List.append_assoc]
    exact hkept
  · rw [hout]
    exact hu
  · rw [codeOf_append, hheld, codeOf_written]
    simp [Item.code]
  · rw [himports]
    exact h.waits
  · intro hp hc
    rcases hopen with hne | hne
    · exact absurd hp hne
    · exact absurd hc hne

theorem Placed.move_written (h : Placed s previous (t :: rest) placed held)
    (ht : t :: rest = taken ++ p.rest)
    (hf : Visit.Fits ⟨s, taken, p.rest⟩)
    (hm : Move o s.served (some foremost) t rest ⟨p.state.cleared, p.previous, p.rest⟩)
    (hp : p.state.pending = []) (hc : p.state.carry = none)
    (himports : p.state.imports = s.keptImports)
    (hends : Visit.endsImport ⟨s, taken, p.rest⟩ = false) :
    Placed p.state p.previous p.rest
      (placed ++ s.dueImports.map .imported ++ (held ++ [Visit.mk s taken p.rest]).map .step) [] := by
  obtain ⟨q, u, w, hk, -, hu, hcode, hheld⟩ := h.kept
  obtain ⟨i, hserved, -, hdue⟩ := (hk.forget h.lines).served hu h.waits
  have hkept := hserved.move hm ht hf hends
  refine ⟨⟨p.previous, _, [], by rwa [List.append_nil], .inl rfl, (hkept.page_spells hp hc).1, ?_,
    rfl⟩, ?_, h.lines_behind ht, fun _ _ => rfl, fun _ w hw => by cases hw⟩
  · simp only [codeOf_append, hcode, hdue, hheld, codeOf_written]
    simp [Item.code]
  · rw [himports]
    exact fun line hl => h.waits line (mem_imports_of_kept hl)

/-- A step that writes a comment behind the last line. -/
theorem Placed.move_trailing (h : Placed s previous (t :: rest) placed held)
    (ht : t :: rest = taken ++ p.rest) (hf : Visit.Fits ⟨s, taken, p.rest⟩)
    (hm : Move o s.cleared previous t rest ⟨p.state.cleared, p.previous, p.rest⟩)
    (hidle : s.pending = [] ∧ s.carry = none)
    (hp : p.state.pending = []) (hc : p.state.carry = none) (himports : p.state.imports = s.imports)
    (hnone : s.imports = [] ∨ s.scope.kind ≠ .file)
    (hends : Visit.endsImport ⟨s, taken, p.rest⟩ = false) :
    Placed p.state p.previous p.rest (placed ++ [Item.step ⟨s, taken, p.rest⟩]) [] := by
  obtain ⟨q, u, w, hk, hq, hu, hcode, hheld⟩ := h.kept
  obtain rfl : q = previous := by
    rcases hq with hq | ⟨hne, hfile⟩
    · exact hq
    · rcases hnone with hnone | hkind
      · exact absurd hnone hne
      · exact absurd hfile hkind
  have hkept := hk.move hm ht hf hends
  refine ⟨⟨p.previous, _, [], by rwa [List.append_nil], .inl rfl, (hkept.page_spells hp hc).1, ?_,
    rfl⟩, ?_, h.lines_behind ht, fun _ _ => rfl, fun _ w hw => by cases hw⟩
  · rw [h.idle hidle.1 hidle.2] at hheld
    simp only [codeOf_append, hcode, hheld, codeOf_written]
    simp [Item.code]
  · rw [himports]
    exact h.waits

/-- A step that closes a block. -/
theorem Placed.move_closed (h : Placed s previous (t :: rest) placed held)
    (ht : t :: rest = taken ++ p.rest) (hf : Visit.Fits ⟨s, taken, p.rest⟩)
    (hm : Move o s.cleared (some foremost) t rest ⟨p.state.cleared, p.previous, p.rest⟩)
    (hb : t.isPunct ['}'] = true) (htaken : taken = [t]) (hp : p.state.pending = [])
    (hc : p.state.carry = none ∨ p.state.carry = some ['}'])
    (himports : p.state.imports = s.imports)
    (hends : Visit.endsImport ⟨s, taken, p.rest⟩ = false) :
    ∃ front back, front ++ back = held ++ [⟨s, taken, p.rest⟩] ∧
      (∀ w ∈ back, w.declaresType = false) ∧
      Placed p.state p.previous p.rest (placed ++ front.map .step) back := by
  obtain ⟨q, u, w, hk, -, hu, hcode, hheld⟩ := h.kept
  have hkept := (hk.forget h.lines).move hm ht hf hends
  have hplain : Visit.declaresType ⟨s, taken, p.rest⟩ = false := by
    rw [htaken]
    exact Visit.declaresType_of_kind (isPunct_disjoint hb (by decide))
  have hquiet : p.state.importing = false := by simp [State.importing, hp, startsImport]
  rcases hc with hc | hc
  · refine ⟨held ++ [⟨s, taken, p.rest⟩], [], List.append_nil _, by simp,
      ⟨p.previous, _, [], by rwa [List.append_nil], .inl rfl, (hkept.page_spells hp hc).1, ?_, rfl⟩,
      ?_, h.lines_behind ht, fun _ _ => rfl, fun _ w hw => by cases hw⟩
    · simp only [codeOf_append, hcode, hheld, codeOf_written]
      simp [Item.code]
    · rw [himports]
      exact h.waits
  · -- the brace is carried, all before it is written
    obtain ⟨u', v, hsplit, hu', hv, -⟩ := hkept.spelled
    have hcarry : p.state.cleared.carry = some ['}'] := hc
    have hpending : p.state.cleared.pending = [] := hp
    rw [hcarry] at hv
    obtain rfl : v = [(.punct, ['}'])] := hv.unique (spells_mark (by decide)) atLineEnd_nil.atGap
      atLineEnd_nil.atGap
    have hwritten : Visit.written ⟨s.cleared, taken, p.rest⟩ o = [(.punct, ['}'])] := by
      rw [htaken]
      simp only [Visit.written, rewritten_of_isPunct hb, content_of_isPunct hb]
    rw [hwritten, hpending, List.map_nil, List.append_nil, List.append_left_inj] at hsplit
    rw [hwritten] at hkept
    refine ⟨held, [⟨s, taken, p.rest⟩], rfl, by simpa using hplain,
      ⟨p.previous, u ++ w, [(.punct, ['}'])], hkept, .inl rfl, hsplit ▸ hu', ?_, ?_⟩, ?_,
      h.lines_behind ht, fun _ hnone => ?_, fun himp => ?_⟩
    · simp only [codeOf_append, hcode, hheld]
      simp
    · have hstep := codeOf_written ⟨s, taken, p.rest⟩ o
      rw [htaken] at hstep ⊢
      simp [Item.code, ← content_of_isPunct hb, codeOf]
    · rw [himports]
      exact h.waits
    · rw [hc] at hnone
      cases hnone
    · rw [hquiet] at himp
      cases himp

/-- A comment that goes behind an import. -/
theorem Placed.move_comment (h : Placed s previous (t :: rest) placed held)
    (ht : t.kind = .lineComment) (hp : s.pending = []) (hc : s.carry = none)
    (hfile : s.scope.kind = .file) (hne : s.imports ≠ []) :
    Placed { s with imports := appendToLast (' ' :: trimEnd t.text) s.imports } (some t) rest
      (placed ++ [.step ⟨s, [t], rest⟩]) [] := by
  obtain ⟨q, u, w, hk, -, hu, hcode, -⟩ := h.kept
  have hleg : Legible (t :: rest) := hk.legible.of_append_right
  have hreads : Reads .lineComment t.text [] := ht ▸ hleg.1.reads
  have htext : ∃ more, trimEnd t.text = '/' :: '/' :: more ∧ '\n' ∉ more :=
    lineComment_of_reads (reads_trimEnd hreads atLineEnd_nil)
  have hlines : ∀ u ∈ rest, 0 < u.line := fun u hu => h.lines u (List.mem_cons_of_mem _ hu)
  have hkept : Kept { s with imports := [] } (some foremost) rest u :=
    kept_of_page rfl hp hc hleg.2 (apart_foremost hk.apart.of_append_right.2 hlines) hu
      fun hlast => absurd rfl (hlast foremost rfl)
  refine ⟨⟨some foremost, u, [], by rwa [List.append_nil], .inr ⟨by simpa using hne, hfile⟩, hu, ?_,
    rfl⟩, ?_, hlines, fun _ _ => rfl, fun _ w hw => by cases hw⟩
  · rw [hcode, List.flatMap_append]
    simp [Item.code, codeOf, Token.content, ht]
  · intro line hl
    obtain ⟨lines, last, hlast⟩ : ∃ lines last, s.imports = lines ++ [last] :=
      ⟨_, _, (List.dropLast_concat_getLast hne).symm⟩
    have hwaits := h.waits
    rw [hlast] at hwaits
    simp only [hlast, appendToLast_concat, List.mem_append, List.mem_singleton] at hl
    rcases hl with hl | rfl
    · exact hwaits line (by simp [hl])
    · exact (hwaits last (by simp)).comment htext

/-- An import statement that ends. -/
theorem Placed.move_imported (h : Placed s previous (t :: rest) placed held)
    (ht : t.isPunct [';'] = true) (hfile : s.scope.kind = .file) :
    Placed { s.clearStatement with imports := s.imports ++ [joinTokens (s.pending ++ [t])] } (some t)
      rest placed [] := by
  obtain ⟨q, u, w, hk, -, hu, hcode, -⟩ := h.kept
  have hleg : Legible (s.pending ++ [t] ++ rest) := by simpa [State.cleared] using hk.legible
  have hplain : NoLineComment (s.pending ++ [t]) :=
    noLineComment_concat.2 ⟨hk.plain, by simp [kind_of_isPunct ht]⟩
  have hlines : ∀ u ∈ rest, 0 < u.line := fun u hu => h.lines u (List.mem_cons_of_mem _ hu)
  have hkept : Kept { s.clearStatement with imports := [] } (some foremost) rest u :=
    kept_of_page rfl rfl rfl hleg.of_append_right (apart_foremost hk.apart.of_append_right.2 hlines) hu
      fun hlast => absurd rfl (hlast foremost rfl)
  refine ⟨⟨some foremost, u, [], by rwa [List.append_nil], .inr ⟨by simp, hfile⟩, hu, hcode, rfl⟩, ?_,
    hlines, fun _ _ => rfl, fun himp => ?_⟩
  · intro line hl
    rcases List.mem_append.1 hl with hl | hl
    · exact h.waits line hl
    · obtain rfl := List.mem_singleton.1 hl
      exact ⟨_, [], _, (List.append_nil _).symm, spells_joinTokens hleg.of_append_left hplain, .inl rfl⟩
  · simp [State.importing, State.clearStatement, startsImport] at himp

/-- One step of a run keeps the invariant. -/
theorem Placed.move {trails : Prop} (h : Placed s previous (t :: rest) placed held)
    (hmove : Move o s previous t rest p) (ht : t :: rest = taken ++ p.rest)
    (hf : Visit.Fits ⟨s, taken, p.rest⟩)
    (htrails : t.kind = .lineComment → isTrailing previous t = true → trails) :
    ∃ placed' held', Placed p.state p.previous p.rest placed' held' ∧
      Advance trails s p.state ⟨s, taken, p.rest⟩ placed held placed' held' := by
  have hends (hr : Visit.readsImport ⟨s, taken, p.rest⟩ = false) :
      Visit.endsImport ⟨s, taken, p.rest⟩ = false := by
    refine eq_false_of_ne_true fun he => ?_
    rw [Visit.readsImport_of_endsImport he] at hr
    cases hr
  -- by what the step does to the statement and to the imports that wait
  cases hmove.effect ht (h.lines t List.mem_cons_self) h.continued with
  | held hm hout himports hscope hopen he =>
    have hkept : p.state.keptImports = s.keptImports := by
      simp only [State.keptImports, hscope, himports]
    refine ⟨_, _, h.move_held hmove ht hf hm hout himports hopen he, .held himports hkept he ?_⟩
    rw [ht] at h
    exact h.held_of_begins
  | written hm hp hc himports hr =>
    exact ⟨_, _, h.move_written ht hf hm hp hc himports (hends hr), .written himports hr⟩
  | trailing hm hk htaken hidle hp hc himports hnone hr =>
    have hheld := h.idle hidle.1 hidle.2
    have hsplit : [⟨s, taken, p.rest⟩] ++ [] = held ++ [⟨s, taken, p.rest⟩] := by rw [hheld]; rfl
    refine ⟨_, _, h.move_trailing ht hf hm hidle hp hc himports hnone (hends hr),
      .closed hsplit (by simp) himports (.inl hheld) ?_ hr⟩
    rw [htaken]
    exact Visit.declaresType_of_kind (by simp [Token.isPunct, hk])
  | closed hm hb htaken hp hc himports henum hr =>
    obtain ⟨front, back, hsplit, hback, hnext⟩ :=
      h.move_closed ht hf hm hb htaken hp hc himports (hends hr)
    refine ⟨_, _, hnext, .closed hsplit hback himports ?_ ?_ hr⟩
    · rcases henum with hidle | henum
      · exact .inl (h.idle hidle.1 hidle.2)
      · exact .inr (keptImports_of_kind (by rw [henum]; decide))
    · rw [htaken]
      exact Visit.declaresType_of_kind (isPunct_disjoint hb (by decide))
  | comment hk htaken hs htrail hp hc hfile hne =>
    subst hs htaken
    obtain ⟨q, u, w, hkept, -⟩ := h.kept
    have hleg : Legible (t :: rest) := hkept.legible.of_append_right
    have hreads : Reads .lineComment t.text [] := hk ▸ hleg.1.reads
    obtain ⟨more, hmore, -⟩ := lineComment_of_reads (reads_trimEnd hreads atLineEnd_nil)
    refine ⟨_, _, h.move_comment hk hp hc hfile hne,
      .comment (htrails hk htrail) ⟨more, by rw [hmore]⟩ rfl (h.idle hp hc)
        (Visit.declaresType_of_kind (by simp [Token.isPunct, hk])) ?_⟩
    simp [Visit.readsImport, hp, startsImport_of_kind (t := t) (by simp [hk])]
  | imported hb htaken hs hc he =>
    subst hs htaken
    obtain ⟨hfile, -, hstart, -⟩ := Visit.endsImport_iff.1 he
    refine ⟨_, _, h.move_imported hb hfile, .imported rfl he (h.importing ?_)⟩
    exact Bool.and_eq_true_iff.2 ⟨beq_iff_eq.2 hfile, hstart⟩

/-! ## Runs -/

/-- The items to come: what is held, and the items of the steps to come. -/
def toCome (s : State) (held vs : List Visit) : List Item :=
  if s.importing then outlineFrom held vs else held.map .step ++ outlineFrom [] vs

theorem toCome_nil (s : State) (held : List Visit) : toCome s held [] = held.map .step := by
  simp [toCome, outlineFrom]

theorem toCome_cons {v : Visit} {vs : List Visit} (h : v.readsImport = false) :
    toCome s held (v :: vs) = (held ++ [v]).map .step ++ outlineFrom [] vs := by
  have hends : v.endsImport = false := by
    refine eq_false_of_ne_true fun he => ?_
    rw [Visit.readsImport_of_endsImport he] at h
    cases h
  simp [toCome, outlineFrom, h, hends]

variable {trails : Prop} {s' : State} {v : Visit} {vs : List Visit} {placed' result : List Item}
  {held' : List Visit} {late : Bool}

theorem toCome_held (himporting : s'.importing = (v.readsImport && !v.endsImport))
    (hends : v.endsImport = false)
    (hbegins : v.readsImport = true → s.importing = false → held = []) :
    toCome s held (v :: vs) = toCome s' (held ++ [v]) vs := by
  rw [hends, Bool.not_false, Bool.and_true] at himporting
  cases hr : v.readsImport with
  | false =>
    rw [toCome_cons hr, toCome, himporting, hr]
    simp
  | true =>
    cases hs : s.importing with
    | true => simp [toCome, hs, himporting, hr, outlineFrom, hends]
    | false =>
      rw [hbegins hr hs]
      simp [toCome, hs, himporting, hr, outlineFrom, hends]

theorem any_declaresType_eq_false {vs : List Visit} :
    vs.any Visit.declaresType = false ↔ ∀ v ∈ vs, v.declaresType = false := by simp

theorem waits_and_or (waits held declared more : Prop) :
    waits ∧ (held ∨ declared) ∨ more ↔ waits ∧ held ∨ declared ∧ waits ∨ more := by tauto

/-- An arrangement behind a step is one in front of it. It is late if a type is held or declared
while imports stay waiting. -/
theorem Advance.arranges (ha : Advance trails s s' v placed held placed' held') (hv : v.state = s)
    (himporting : s'.importing = (v.readsImport && !v.endsImport))
    (h : Arranges trails placed' s'.imports (toCome s' held' vs) result late) {more : Prop}
    (hlate : late = true ↔ (s'.keptImports ≠ [] ∧ held'.any Visit.declaresType = true) ∨ more) :
    ∃ late', Arranges trails placed s.imports (toCome s held (v :: vs)) result late' ∧
      (late' = true ↔ (s.keptImports ≠ [] ∧ held.any Visit.declaresType = true) ∨
        (v.declaresType = true ∧ s.keptImports ≠ []) ∨ more) := by
  have hidle (hreads : v.readsImport = false) :
      toCome s' held' vs = held'.map .step ++ outlineFrom [] vs := by
    rw [hreads, Bool.false_and] at himporting
    simp [toCome, himporting]
  have hwaiting : (!s.imports.isEmpty) = true ↔ s.imports ≠ [] := by simp
  cases ha with
  | held himports hkept hends hbegins =>
    rw [himports, ← toCome_held himporting hends hbegins] at h
    refine ⟨late, h, hlate.trans ?_⟩
    rw [hkept, List.any_append, Bool.or_eq_true, List.any_cons, List.any_nil, Bool.or_false]
    exact waits_and_or ..
  | written himports hreads =>
    rw [hidle hreads, himports] at h
    simp only [List.any_nil, Bool.false_eq_true, and_false, false_or] at hlate
    rw [toCome_cons hreads]
    -- the imports are written in front of the items, or they wait on behind them
    by_cases hfront : s.scope.kind = .file ∧ s.scope.inElement = false
    · have hkept : s.keptImports = [] := if_pos hfront
      have hdue : s.dueImports = sortedImports s.imports := if_pos hfront
      rw [hkept, hdue] at h
      refine ⟨late, .flush (by simp) h, hlate.trans ?_⟩
      simp [hkept]
    · have hkept : s.keptImports = s.imports := if_neg hfront
      have hdue : s.dueImports = [] := if_neg hfront
      rw [hkept, hdue, List.map_nil, List.append_nil] at h
      refine ⟨_, .write _ h, ?_⟩
      rw [Bool.or_eq_true, hlate, hkept, Bool.and_eq_true, hwaiting, List.any_append,
        Bool.or_eq_true, List.any_cons, List.any_nil, Bool.or_false, or_comm,
        and_comm (b := s.imports ≠ [])]
      exact waits_and_or ..
  | @closed front _ hsplit hback himports hkept hplain hreads =>
    rw [hidle hreads, himports] at h
    simp only [any_declaresType_eq_false.2 hback, Bool.false_eq_true, and_false, false_or] at hlate
    rw [toCome_cons hreads, ← hsplit, List.map_append, List.append_assoc]
    have hfront : front.any Visit.declaresType = held.any Visit.declaresType := by
      have hall := congrArg (List.any · Visit.declaresType) hsplit
      simpa [any_declaresType_eq_false.2 hback, hplain] using hall
    refine ⟨_, .write _ h, ?_⟩
    rw [Bool.or_eq_true, hlate, Bool.and_eq_true, hwaiting, hfront, hplain]
    rcases hkept with rfl | hkept
    · simp
    · rw [hkept, or_comm, and_comm]
      simp
  | comment ht hc himports hheld hplain hreads =>
    rw [hidle hreads, himports] at h
    rw [toCome_cons hreads, hheld]
    refine ⟨_, .comment ht hc (.write [v] h), ?_⟩
    simp [hlate, hplain]
  | imported himports hends hplain =>
    rw [hends, Bool.not_true, Bool.and_false] at himporting
    have hreads := Visit.readsImport_of_endsImport hends
    obtain ⟨hfile, -, hstart, -⟩ := Visit.endsImport_iff.1 hends
    rw [hv] at hfile hstart
    have hs : s.importing = true := by simp [State.importing, hfile, hstart]
    have hbehind : toCome s' [] vs = outlineFrom [] vs := by simp [toCome, himporting]
    have hfront : toCome s held (v :: vs) = .imported v.importLine :: outlineFrom [] vs := by
      simp [toCome, hs, outlineFrom, hends]
    rw [hbehind, himports] at h
    rw [hfront]
    refine ⟨late, .wait _ h, hlate.trans ?_⟩
    rw [Visit.declaresType_of_readsImport hreads, any_declaresType_eq_false.2 hplain]
    simp

/-- Each line comment stands on a line of its own. -/
def CommentsAlone (ts : List Token) : Prop :=
  ts.IsChain fun p c => c.kind = .lineComment → p.line ≠ c.line

theorem CommentsAlone.of_append_right {ts us : List Token} (h : CommentsAlone (ts ++ us)) :
    CommentsAlone us := List.IsChain.right_of_append h

/-- A run places the items to come. -/
theorem Placed.run {ts : List Token} {text : List Char} (ht : Trace o s previous ts s')
    (h : Placed s previous ts placed held) (hf : ∀ v ∈ visits o s previous ts, v.Fits)
    (hfin : finish o s' = .ok text) (htr : CommentsAlone (previous.toList ++ ts) ∨ trails) :
    ∃ result late, Arranges trails placed s.imports (toCome s held (visits o s previous ts)) result late ∧
      (∃ w, contents text = some w ∧ codeOf w = result.flatMap Item.code) ∧
      (late = true ↔ (s.keptImports ≠ [] ∧ held.any Visit.declaresType = true) ∨
        ∃ v ∈ visits o s previous ts, v.declaresType = true ∧ v.state.keptImports ≠ []) := by
  -- by induction on the run: a step places what it writes, the others are held for a line to come
  induction ht generalizing placed held with
  | nil s previous =>
    obtain ⟨q, u, w, hk, -, hu, hcode, hheld⟩ := h.kept
    obtain ⟨hp, -, -, rfl⟩ := finish_eq_ok.1 hfin
    have hc : s.carry = none := by
      by_contra hc
      have hword := h.continued hc
      rw [hp] at hword
      cases hword
    obtain rfl := h.idle hp hc
    obtain ⟨i, hpage, himports⟩ := exists_spells_importLines hu h.waits
    refine ⟨placed ++ (sortedImports s.imports).map .imported, false, ?_, ⟨u ++ i, ?_, ?_⟩, ?_⟩
    · rw [visits_nil, toCome_nil]
      exact .done _ _
    · have hfinished : s.finished o = s.out ++ s.importLines := by
        simp [State.finished, State.importLines, hc]
      rw [hfinished]
      exact contents_unlines hpage
    · rw [codeOf_append, hcode, himports, List.flatMap_append]
    · simp
  | @cons s s' previous t rest p hm ht ih =>
    obtain ⟨taken, htaken, hlast, hne⟩ := exists_taken hm
    rw [visits_cons hm htaken] at hf ⊢
    obtain ⟨hfit, hrest⟩ := List.forall_mem_cons.1 hf
    have htrails : t.kind = .lineComment → isTrailing previous t = true → trails := by
      intro hk htrail
      refine htr.resolve_left fun halone => ?_
      cases previous with
      | none => cases htrail
      | some q => exact (List.isChain_cons_cons.1 halone).1 hk (eq_of_beq htrail)
    have hnext : CommentsAlone (p.previous.toList ++ p.rest) ∨ trails := by
      refine htr.imp_left fun halone => ?_
      have hends : taken.dropLast ++ taken.getLast?.toList = taken := by
        rw [List.getLast?_eq_getLast_of_ne_nil hne]
        exact List.dropLast_concat_getLast hne
      rw [htaken, ← hends, List.append_assoc, ← List.append_assoc] at halone
      rw [hlast]
      exact halone.of_append_right
    obtain ⟨placed', held', hplaced, hadvance⟩ := h.move hm htaken hfit htrails
    obtain ⟨result, late, harranges, hcode, hlate⟩ := ih hplaced hrest hfin hnext
    obtain ⟨late', harranges', hlate'⟩ := hadvance.arranges rfl (hm.importing htaken) harranges hlate
    refine ⟨result, late', harranges', hcode, hlate'.trans ?_⟩
    simp only [List.mem_cons, exists_eq_or_imp]

theorem line_pos {line : Nat} {spaced : Bool} {cs : List Char} {ts : List Token}
    (h : Lexed line spaced cs ts) (hl : 0 < line) : ∀ t ∈ ts, 0 < t.line := by
  induction h with
  | nil => simp
  | blank _ _ _ ih =>
    refine ih ?_
    split <;> omega
  | @lexeme line _ _ l _ _ _ _ _ ih =>
    have hnext : 0 < l.nextLine line := by
      unfold Lexeme.nextLine
      split <;> omega
    exact List.forall_mem_cons.2 ⟨hl, ih hnext⟩

theorem placed_start {source : List Char} {ts : List Token} (ht : tokenize source = .ok ts) :
    Placed {} none ts [] [] where
  kept := ⟨none, [], [], kept_start (legible_of_tokenize ht) (apart_of_tokenize ht), .inl rfl,
    spells_nil _ _, rfl, rfl⟩
  waits := by simp
  lines := line_pos (lexed_of_tokensFrom ht) Nat.one_pos
  idle _ _ := rfl
  importing _ := by simp

/-- The layout of a source whose comments fit is read back as an arrangement of its items. If the
source has its imports before its types, so has the text, if and only if no type is declared while
imports wait on, behind the front of an element that has begun. Imports that follow each other are
put into order, static ones first, each once; comments may stand behind the last one of them. -/
theorem imports_of_format {source text : List Char} {ts : List Token}
    (ht : tokenize source = .ok ts) (hfit : CommentsFit o ts) (hf : format o source = .ok text) :
    ∃ us placed, tokenize text = .ok us ∧
      codeOf (us.map Token.content) = placed.flatMap Item.code ∧
      IsArrangement (outline o ts) placed ∧
      (ImportsFirst (outline o ts) →
        (ImportsFirst placed ↔
          ∀ v ∈ visits o {} none ts, v.declaresType = true → v.state.keptImports = [])) ∧
      ∀ before lines after, outline o ts = before ++ (lines.map .imported ++ after) →
        importsOf before = [] → importsOf after = [] →
        ∃ tail, importsOf placed = sortedImports (appendToLast tail lines) ∧
          (importsOf placed).Pairwise (fun a b => importLE a b = true ∧ a ≠ b) ∧
          (tail = [] ∨ ¬ CommentsAlone ts ∧ ∃ more, tail = ' ' :: '/' :: '/' :: more) := by
  obtain ⟨ts', s', ht', htrace, hfin⟩ := format_eq_ok.1 hf
  rw [ht] at ht'
  cases ht'
  have halone : CommentsAlone ((none : Option Token).toList ++ ts) ∨ ¬ CommentsAlone ts :=
    Classical.em _
  obtain ⟨placed, late, harranges, ⟨w, hcontents, hcode⟩, hlate⟩ :=
    (placed_start ht).run htrace hfit hfin halone
  obtain ⟨us, hus, hw⟩ := contents_eq_some_iff.1 hcontents
  have houtline : toCome {} [] (visits o {} none ts) = outline o ts := rfl
  rw [houtline] at harranges
  refine ⟨us, placed, hus, by rw [hw, hcode], harranges.isArrangement, fun hfirst => ?_, ?_⟩
  · have hplaced := harranges.importsFirst_iff hfirst fun hd => by
      obtain ⟨a, ha, -⟩ := hd
      cases ha
    rw [hplaced]
    have htimely : late = false ↔
        ∀ v ∈ visits o {} none ts, v.declaresType = true → v.state.keptImports = [] := by
      rw [← Bool.not_eq_true, hlate]
      simp
    rw [htimely]
    exact ⟨fun h => h.2.2, fun h => ⟨.nil, fun _ => rfl, h⟩⟩
  · intro before lines after hitems hbefore hafter
    obtain ⟨tail, himports, htail⟩ := harranges.importsOf_behind rfl hitems hbefore hafter
    have hsorted : importsOf placed = sortedImports (appendToLast tail lines) := himports
    exact ⟨tail, hsorted, hsorted ▸ pairwise_sortedImports _, htail⟩

/-- The tokens of a file that declares a class behind its package and two imports. -/
def importingUnit : List Token :=
  [⟨.word, "package".toList, false, 1⟩, ⟨.word, ['p'], true, 1⟩, ⟨.punct, [';'], false, 1⟩,
    ⟨.word, "import".toList, false, 1⟩, ⟨.word, ['b'], true, 1⟩, ⟨.punct, [';'], false, 1⟩,
    ⟨.word, "import".toList, false, 1⟩, ⟨.word, ['a'], true, 1⟩, ⟨.punct, [';'], false, 1⟩,
    ⟨.word, "class".toList, false, 1⟩, ⟨.word, ['C'], true, 1⟩, ⟨.punct, ['{'], false, 1⟩,
    ⟨.punct, ['}'], false, 1⟩]

theorem imports_of_format_of_unit :
    tokenize "package p;import b;import a;class C\x7b\x7d".toList = .ok importingUnit ∧
      CommentsFit ⟨4, 100⟩ importingUnit ∧ ImportsFirst (outline ⟨4, 100⟩ importingUnit) ∧
      ∃ text us placed,
        format ⟨4, 100⟩ "package p;import b;import a;class C\x7b\x7d".toList = .ok text ∧
        tokenize text = .ok us ∧ codeOf (us.map Token.content) = placed.flatMap Item.code ∧
        IsArrangement (outline ⟨4, 100⟩ importingUnit) placed ∧ ImportsFirst placed ∧
        importsOf placed = ["import a;".toList, "import b;".toList] := by
  have ht : tokenize "package p;import b;import a;class C\x7b\x7d".toList = .ok importingUnit := by
    decide +kernel
  have hfit : CommentsFit ⟨4, 100⟩ importingUnit := by
    have hall : ((visits ⟨4, 100⟩ {} none importingUnit).all fun v =>
        v.taken.all fun t => t.kind != .lineComment) = true := by decide +kernel
    intro v hv
    have hplain : NoLineComment v.taken := by
      simpa [NoLineComment] using List.all_eq_true.1 hall v hv
    unfold Visit.Fits
    split
    · next t htaken =>
      intro hk
      exact absurd hk (hplain t (by simp [htaken]))
    · exact hplain
  have hfirst : ImportsFirst (outline ⟨4, 100⟩ importingUnit) := by
    unfold ImportsFirst
    decide +kernel
  have hwaits : ∀ v ∈ visits ⟨4, 100⟩ {} none importingUnit, v.declaresType = true →
      v.state.keptImports = [] := by decide +kernel
  have hitems : outline ⟨4, 100⟩ importingUnit = (outline ⟨4, 100⟩ importingUnit).take 3 ++
      (["import b;".toList, "import a;".toList].map .imported ++
        (outline ⟨4, 100⟩ importingUnit).drop 5) := by decide +kernel
  have halone : CommentsAlone importingUnit := by
    unfold CommentsAlone
    decide +kernel
  have hsorted : sortedImports ["import b;".toList, "import a;".toList] =
      ["import a;".toList, "import b;".toList] := by
    have hle : importLE "import b;".toList "import a;".toList = false := by decide +kernel
    have hmerge : ["import b;".toList, "import a;".toList].mergeSort importLE =
        ["import a;".toList, "import b;".toList] := by
      simp only [List.mergeSort, List.MergeSort.Internal.splitInTwo]
      simp [-String.reduceToList, hle]
    rw [sortedImports, hmerge]
    decide +kernel
  have hok : (format ⟨4, 100⟩ "package p;import b;import a;class C\x7b\x7d".toList).isOk = true := by
    decide +kernel
  obtain ⟨text, hf⟩ : ∃ text,
      format ⟨4, 100⟩ "package p;import b;import a;class C\x7b\x7d".toList = .ok text := by
    cases hf : format ⟨4, 100⟩ "package p;import b;import a;class C\x7b\x7d".toList with
    | ok text => exact ⟨text, rfl⟩
    | error e =>
      rw [hf] at hok
      cases hok
  obtain ⟨us, placed, hus, hcode, harr, hplaced, himports⟩ := imports_of_format ht hfit hf
  obtain ⟨tail, htail, -, hnone⟩ := himports _ _ _ hitems (by decide +kernel) (by decide +kernel)
  obtain rfl := hnone.resolve_right fun h => h.1 halone
  rw [appendToLast_nil, hsorted] at htail
  exact ⟨ht, hfit, hfirst, text, us, placed, hf, hus, hcode, harr, (hplaced hfirst).2 hwaits, htail⟩

end JpaScaffold.Java.Layout
