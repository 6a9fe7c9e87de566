import JpaScaffold.Proofs.Layout.Recurrence

/-!
# Comments and annotations are read again

A block comment in front of a member is laid out to the same lines again. An annotation is read
again up to its end; if its name were to go on behind it, the text would no longer part the two.
-/
namespace JpaScaffold.Java.Layout

variable {o : Options} {s : State} {t : Token} {rest : List Token}

theorem Held.brackets_of_nil {fresh : Bool} {brackets : List Bracket} {assigned : Bool}
    {ts : List Token} (h : Held fresh ts brackets assigned) (hts : ts = []) : brackets = [] := by
  cases h with
  | nil => rfl
  | push => simp at hts

theorem Reread.idle (h : Reread o s rest) (hp : s.pending = []) : Idle s where
  pending := hp
  nesting := List.map_eq_nil_iff.1 (h.held.brackets_of_nil hp)
  assigned := h.held.assigned_of_nil hp

theorem page_getLast {lines more : List (List Char)} (h : page more ≠ []) :
    (page (lines ++ more)).getLast? = (page more).getLast? := by
  have hmore : more ≠ [] := by
    rintro rfl
    exact h rfl
  cases lines with
  | nil => rfl
  | cons line lines =>
    rw [page_append (by simp) hmore, List.getLast?_append_of_ne_nil _ (by simp),
      List.getLast?_cons_of_ne_nil h]

theorem endsInWord_decorate {lines : List (List Char)} (h : page (s.setIn o lines) ≠ []) :
    (s.decorate o lines).endsInWord = (page (s.setIn o lines)).getLast?.any isWordChar := by
  rw [State.endsInWord, decorate_eq]
  simp only
  rw [page_getLast h]

/-- A decoration was written, and its text is read again. -/
theorem Reread.decorate {us vs q rest₁ : List Token} {lines : List (List Char)} {m : Seam}
    (h : Reread o s (t :: rest)) (hr : Resumed o s t us vs) (hi : Idle s) (hc : s.carry = none)
    (hq : Spells .tokens AtGap (page (s.setIn o lines)) q) (hne : lines ≠ [])
    (hkq : NoLineComment q) (hl : Legible rest₁) (hk : NoLineComment rest₁)
    (hrun : ∀ b, NoLineComment b → m.Admits b →
      run o {} none (us ++ (s.dueTokens ++ vs) ++ (q ++ b)) =
        run o (s.decorate o lines).bare none b)
    (hm : m.Meets (s.decorate o lines) rest₁)
    (hx : m = .annotated →
      Sticks o (us ++ (s.dueTokens ++ vs) ++ q) (page (s.decorate o lines).out)) :
    Reread o (s.decorate o lines) rest₁ := by
  have himports := h.dueImports
  have hcarry := hr.carry
  rw [hc] at hcarry
  obtain rfl := hcarry.eq_nil atLineEnd_nil.atGap
  have hpage := spells_emission (o := o) (spells_dueImports himports) hr.spells.atLineEnd hq hne false
  have hout : page (s.decorate o lines).out =
      page (s.out ++ s.frontLines false ++ s.setIn o lines) := by
    rw [decorate_eq]
  have hplain : NoLineComment (us ++ (s.dueTokens ++ []) ++ q) :=
    noLineComment_append.2 ⟨noLineComment_append.2 ⟨hr.plain, noLineComment_append.2
      ⟨noLineComment_dueTokens himports, noLineComment_nil⟩⟩, hkq⟩
  have hwritten : Written o (s.decorate o lines) rest₁ := by
    refine .lines ?_ ?_ hplain ?_ hm hx
    · rw [decorate_eq]
      exact hc
    · have htokens : us ++ (s.dueTokens ++ []) ++ q = us ++ (s.dueTokens ++ q) := by simp
      rw [hout, htokens]
      exact hpage
    · intro b hb hadmits
      rw [← hrun b hb hadmits, List.append_assoc]
  refine reread_of_written ?_ ?_ hl hk ?_ ?_ hwritten
  · rw [decorate_eq]
    exact ⟨hi.pending, hi.nesting, hi.assigned⟩
  · rw [decorate_eq]
    exact hc
  · intro line hline
    rw [decorate_eq] at hline
    exact h.imports line (mem_imports_of_keptImports hline)
  · rw [decorate_eq]
    exact h.nested.of_kind rfl

theorem laidComment_getLast {text : List Char} (h : Reads .blockComment text []) (n : Nat) :
    (laidComment n text).getLast? = some '/' := by
  obtain ⟨cs, hcs, hclosed⟩ := closesComment_of_reads (reads_laidComment h n [])
  have hne := hclosed.ne_nil
  rw [hcs, List.getLast?_cons_of_ne_nil (by simp), List.getLast?_cons_of_ne_nil hne]
  exact hclosed.getLast

/-- A block comment in front of a member is read again. -/
theorem Reread.blockComment (h : Reread o s (t :: rest)) (hf : Visit.fuses ⟨s, [t], rest⟩ = false)
    (ht : t.kind = .blockComment) (hs : s.atStart = true) :
    Reread o (s.decorate o (commentLines t.text)) rest := by
  obtain ⟨hp, hc⟩ := State.atStart_iff.1 hs
  have hleg : Legible (t :: rest) := h.legible.of_append_right
  have hreads : Reads .blockComment t.text [] := ht ▸ hleg.1.reads
  obtain ⟨us, vs, hr⟩ := h.resumes rfl hf (by simp [Token.isPunct, ht])
  have hplain := noLineComment_cons.1 (noLineComment_append.1 h.plain).2
  have hpage := page_commentLines hreads (s.indent o)
  have hlast := laidComment_getLast hreads (s.indent o)
  have hagain := commentLines_laidComment hreads (s.indent o)
  have hreads' := reads_laidComment hreads (s.indent o)
  generalize laidComment (s.indent o) t.text = laid at hpage hlast hagain hreads'
  have hlaid : laid ≠ [] := by
    rintro rfl
    cases hlast
  generalize hu : (⟨.blockComment, laid, true, 0⟩ : Token) = u
  have hkind : u.kind = .blockComment := by rw [← hu]
  have htext : u.text = laid := by rw [← hu]
  have hq : Spells .tokens AtGap (page (s.setIn o (commentLines t.text))) [u] := by
    have hlaid : Spells .tokens AtGap laid (leading [u]) := by
      rw [← htext]
      exact spells_token (by rwa [hkind, htext]) (by simp [hkind])
    rw [State.setIn, hpage]
    have hone : leading [u] = [u] := by
      rw [← hu]
      rfl
    rw [hone] at hlaid
    exact hlaid.indent _
  have hkq : NoLineComment [u] := noLineComment_cons.2 ⟨by simp [hkind], noLineComment_nil⟩
  refine h.decorate hr (h.idle hp) hc hq (commentLines_ne_nil hreads) hkq hleg.2 hplain.2
    (m := .free) ?_ (Seam.meets_free _ fun _ => ?_) (by rintro ⟨⟩)
  · intro b hb _
    have hmove : Move o s.reopened none u b ⟨s.reopened.decorate o (commentLines u.text), _, b⟩ :=
      .blockComment hkind (by simp [State.atStart, State.reopened, State.bare, hc])
    have hstep : run o s.reopened none (u :: b) =
        run o (s.reopened.decorate o (commentLines u.text)) (some u) b := Layout.run_of_move hmove
    rw [List.singleton_append, hr.run_freely hc u b (by simp [opensFreely, hkind])
      (noLineComment_cons.2 ⟨by simp [hkind], hb⟩), hstep, htext, hagain, ← bare_decorate]
    exact run_previous hb _ _
  · have hne : page (s.setIn o (commentLines t.text)) ≠ [] := by
      rw [State.setIn, hpage]
      simp [hlaid]
    rw [endsInWord_decorate hne, State.setIn, hpage, List.getLast?_append_of_ne_nil _ hlaid, hlast]
    decide

theorem joinTokens_getLast {ts : List Token} {t : Token} (ht : t.text ≠ []) :
    (joinTokens (ts ++ [t])).getLast? = t.text.getLast? := by
  cases ts with
  | nil => simp [joinTokens_cons]
  | cons u ts =>
    rw [List.cons_append, joinTokens_cons, spread_append, spread_cons, spread_nil, List.append_nil,
      ← List.append_assoc, List.getLast?_append_of_ne_nil]
    · split
      · rw [List.getLast?_cons_of_ne_nil ht]
      · rfl
    · split
      · simp
      · exact ht

theorem spread_ne_lineFeed {c : Token} (hc : c.isPunct ['.'] = true ∨ c.isPunct ['('] = true)
    (cs : List Token) (a b : List Char) : spread (c :: cs) ++ a ≠ '\n' :: b := by
  rw [spread_cons]
  split
  · simp
  · rcases hc with hc | hc
    · simp [(Token.isPunct_iff.1 hc).2]
    · simp [(Token.isPunct_iff.1 hc).2]

section Annotation

variable {name : Token} {more tail rest' : List Token}

theorem leading_cons_cons (t name : Token) (tail : List Token) :
    leading (t :: name :: tail) = t.detached :: name.unlined :: tail.map Token.unlined := rfl

/-- An annotation that was written is written again, in front of what does not attach to it. -/
theorem annotation_again {b : List Token} (hc : s.carry = none)
    (ha : startsAnnotation t (name :: more) = true) (ht : annotationTail more = some (tail, rest'))
    (hb : NoLineComment b) (hend : (∀ x, tail.getLast? = some x → x.isWord = true) →
      attaches b = false) :
    run o s.reopened none (leading (t :: name :: tail) ++ b) =
      run o (s.decorate o [joinTokens (t :: name :: tail)]).bare none b := by
  have hstart : startsAnnotation t.detached (name.unlined :: (tail.map Token.unlined ++ b)) = true :=
    ha
  have htail : annotationTail (tail.map Token.unlined ++ b) = some (tail.map Token.unlined, b) :=
    annotationTail_of_contents ht (map_content_unlined tail) hend
  have hmove : Move o s.reopened none t.detached (name.unlined :: (tail.map Token.unlined ++ b)) _ :=
    .decoration rfl (by simp [State.atStart, State.reopened, State.bare, hc]) hstart htail
  rw [← leading_cons_cons, joinTokens_leading] at hmove
  rw [bare_decorate, leading_cons_cons, List.cons_append, List.cons_append, Layout.run_of_move hmove]
  exact run_previous hb _ _

theorem annotationTail_of_move {previous : Option Token} {p : Progress} (hs : s.atStart = true)
    (ha : startsAnnotation t (name :: more) = true) (hm : Move o s previous t (name :: more) p) :
    ∃ taken left, annotationTail more = some (taken, left) ∧
      p = ⟨s.decorate o [joinTokens (t :: name :: taken)], (t :: name :: taken).getLast?, left⟩ := by
  have hkind := kind_of_isPunct (startsAnnotation_isPunct ha)
  have hstep := step_of_move hm
  unfold step at hstep
  rw [if_neg (by simp [hkind]), if_neg (by simp [hkind]), if_pos ⟨hs, ha⟩] at hstep
  simp only [ readAnnotation] at hstep
  split at hstep
  · next taken left ht =>
    cases hstep
    exact ⟨taken, left, ht, rfl⟩
  · cases hstep

/-- The name of an annotation that was written holds what attaches to it on its line. -/
theorem sticks_decorate {us vs : List Token} (hr : Resumed o s t us vs) (hc : s.carry = none)
    (hk : NoLineComment (t :: name :: tail)) (ha : startsAnnotation t (name :: more) = true)
    (ht : annotationTail more = some (tail, rest'))
    (hw : ∀ x, tail.getLast? = some x → x.isWord = true) :
    Sticks o (us ++ (s.dueTokens ++ vs) ++ leading (t :: name :: tail))
      (page (s.decorate o [joinTokens (t :: name :: tail)]).out) := by
  intro b s₁ text after hb hattach hrun hfinish htext
  have hplain : NoLineComment (leading (t :: name :: tail) ++ b) :=
    noLineComment_append.2 ⟨noLineComment_of_contents (sameContents_leading _) hk, hb⟩
  have hat : t.detached.isPunct ['@'] = true := (startsAnnotation_isPunct ha :)
  have hagain : startsAnnotation t.detached (name.unlined :: (tail.map Token.unlined ++ b)) = true :=
    ha
  have hfree := hr.run_freely hc t.detached (name.unlined :: (tail.map Token.unlined ++ b))
    (by simp [opensFreely, hat]) hplain
  rw [List.append_assoc] at hrun
  cases trace_of_run (hfree.symm.trans hrun) with
  | cons hmove htrace =>
    obtain ⟨taken, left, htaken, rfl⟩ := annotationTail_of_move
      (by simp [State.atStart, State.reopened, State.bare, hc]) hagain hmove
    obtain ⟨c, cs, rfl, hc⟩ :=
      annotationTail_of_attaches ht hw (map_content_unlined tail) hattach htaken
    have hjoin : joinTokens (t.detached :: name.unlined :: (tail.map Token.unlined ++ c :: cs)) =
        joinTokens (t :: name :: tail) ++ spread (c :: cs) := by
      rw [← joinTokens_leading (t :: name :: tail), leading_cons_cons, joinTokens_cons,
        joinTokens_cons, ← List.cons_append, spread_append, List.append_assoc]
    have hout (line : List Char) : page (s.reopened.decorate o [line]).out =
        page (s.out ++ s.frontLines false ++ s.setIn o [line]) := by
      rw [← bare_decorate, decorate_eq]
      rfl
    obtain ⟨tail', htail', -⟩ := htrace.extends_finish hfinish (by rw [decorate_eq]; simp [State.setIn])
    have hhere : page (s.decorate o [joinTokens (t :: name :: tail)]).out =
        page (s.reopened.decorate o [joinTokens (t :: name :: tail)]).out := by
      rw [← bare_decorate]
      rfl
    have hgrown : page (s.reopened.decorate o [joinTokens (t :: name :: tail) ++ spread (c :: cs)]).out =
        page (s.reopened.decorate o [joinTokens (t :: name :: tail)]).out ++ spread (c :: cs) := by
      rw [hout, hout, State.setIn, State.setIn, List.map_singleton, List.map_singleton,
        ← List.append_assoc (List.replicate _ _), page_concat]
    rw [hjoin, hgrown, htext, hhere, List.append_assoc] at htail'
    exact spread_ne_lineFeed hc cs tail' after (List.append_cancel_left htail').symm

theorem endsInWord_joinTokens {ts : List Token} {x : Token} (hl : Legible (ts ++ [x])) :
    (s.decorate o [joinTokens (ts ++ [x])]).endsInWord = x.text.getLast?.any isWordChar := by
  have htext : x.text ≠ [] := hl.text_ne_nil x (by simp)
  have hlast : (joinTokens (ts ++ [x])).getLast? = x.text.getLast? := joinTokens_getLast htext
  have hjoin : joinTokens (ts ++ [x]) ≠ [] := by
    intro hnil
    rw [hnil, List.getLast?_nil, eq_comm, List.getLast?_eq_none_iff] at hlast
    exact htext hlast
  have hne : page (s.setIn o [joinTokens (ts ++ [x])]) ≠ [] := by
    simp [State.setIn, hjoin]
  rw [endsInWord_decorate hne, State.setIn, List.map_singleton, page_singleton,
    List.getLast?_append_of_ne_nil _ hjoin, hlast]

/-- An annotation that ends with its name ends with a word. -/
theorem isWord_of_getLast {x : Token} (ha : startsAnnotation t (name :: more) = true)
    (hw : ∀ x, tail.getLast? = some x → x.isWord = true)
    (hx : (t :: name :: tail).getLast? = some x) : x.isWord = true := by
  cases htail : tail.getLast? with
  | none =>
    rw [List.getLast?_eq_none_iff.1 htail] at hx
    cases hx
    simp only [ startsAnnotation, Bool.and_eq_true] at ha
    exact ha.1.2
  | some y =>
    rw [List.getLast?_cons_cons, List.getLast?_cons, htail] at hx
    cases hx
    exact hw _ htail

theorem run_annotation {us vs b : List Token} (hr : Resumed o s t us vs) (hc : s.carry = none)
    (hk : NoLineComment (t :: name :: tail)) (ha : startsAnnotation t (name :: more) = true)
    (ht : annotationTail more = some (tail, rest')) (hb : NoLineComment b)
    (hend : (∀ x, tail.getLast? = some x → x.isWord = true) → attaches b = false) :
    run o {} none (us ++ (s.dueTokens ++ vs) ++ (leading (t :: name :: tail) ++ b)) =
      run o (s.decorate o [joinTokens (t :: name :: tail)]).bare none b := by
  have hat : t.detached.isPunct ['@'] = true := (startsAnnotation_isPunct ha :)
  have hkept : NoLineComment (leading (t :: name :: tail)) :=
    noLineComment_of_contents (sameContents_leading _) hk
  have hfree := hr.run_freely hc t.detached (name.unlined :: tail.map Token.unlined ++ b)
    (by simp [opensFreely, hat]) (noLineComment_append.2 ⟨hkept, hb⟩)
  exact hfree.trans (annotation_again hc ha ht hb hend)

/-- An annotation in front of a member is read again. -/
theorem Reread.decoration (h : Reread o s (t :: name :: more))
    (hf : Visit.fuses ⟨s, t :: name :: tail, rest'⟩ = false) (hs : s.atStart = true)
    (ha : startsAnnotation t (name :: more) = true) (ht : annotationTail more = some (tail, rest')) :
    Reread o (s.decorate o [joinTokens (t :: name :: tail)]) rest' := by
  obtain ⟨hp, hc⟩ := State.atStart_iff.1 hs
  have htaken : t :: name :: more = (t :: name :: tail) ++ rest' := by
    rw [← annotationTail_append ht]
    rfl
  obtain ⟨us, vs, hr⟩ :=
    h.resumes htaken hf (isPunct_disjoint (startsAnnotation_isPunct ha) (by decide))
  have hleg : Legible ((t :: name :: tail) ++ rest') := htaken ▸ h.legible.of_append_right
  obtain ⟨hkeep, hrest⟩ := noLineComment_append.1 (htaken ▸ (noLineComment_append.1 h.plain).2)
  have hq : Spells .tokens AtGap (page (s.setIn o [joinTokens (t :: name :: tail)]))
      (leading (t :: name :: tail)) :=
    spells_setIn (spells_joinTokens hleg.of_append_left hkeep)
  have hkq : NoLineComment (leading (t :: name :: tail)) :=
    noLineComment_of_contents (sameContents_leading _) hkeep
  have hrun {b : List Token} := run_annotation (b := b) hr hc hkeep ha ht
  obtain ⟨ts, x, hx⟩ : ∃ ts x, t :: name :: tail = ts ++ [x] :=
    ⟨_, _, (List.dropLast_concat_getLast (by simp)).symm⟩
  have hlast : (t :: name :: tail).getLast? = some x := by rw [hx, List.getLast?_concat]
  have hword : (s.decorate o [joinTokens (t :: name :: tail)]).endsInWord =
      x.text.getLast?.any isWordChar := by
    rw [hx]
    exact endsInWord_joinTokens (hx ▸ hleg.of_append_left)
  rcases annotationTail_getLast ht with ⟨y, hy, hparen⟩ | ⟨-, hw⟩
  · -- the annotation ends with its arguments
    have hxy : x = y := by
      rw [List.getLast?_cons_cons, List.getLast?_cons, hy] at hlast
      simpa using hlast.symm
    refine h.decorate hr (h.idle hp) hc hq (by simp) hkq hleg.of_append_right hrest (m := .free)
      (fun b hb _ => hrun hb fun hw => ?_) (Seam.meets_free _ fun _ => ?_) (by rintro ⟨⟩)
    · have hcontra := hw y hy
      simp [Token.isWord, (Token.isPunct_iff.1 hparen).1] at hcontra
    · rw [hword, hxy, (Token.isPunct_iff.1 hparen).2]
      decide
  · -- it ends with its name
    have hends : x.text.getLast?.any isWordChar = true := by
      have hlegx : Legible (x :: rest') := by
        rw [hx, List.append_assoc] at hleg
        exact hleg.of_append_right
      have hreads := hlegx.1.reads
      rw [show x.kind = .word by simpa [Token.isWord] using isWord_of_getLast ha hw hlast] at hreads
      exact hreads.getLast_word
    have hpending : (s.decorate o [joinTokens (t :: name :: tail)]).pending = [] := by
      rw [decorate_eq]
      exact hp
    refine h.decorate hr (h.idle hp) hc hq (by simp) hkq hleg.of_append_right hrest
      (m := .annotated) (fun b hb hadmits => hrun hb fun _ => hadmits) ?_
      fun _ => sticks_decorate hr hc hkeep ha ht hw
    refine ⟨by rintro ⟨⟩, by rintro ⟨⟩, ⟨fun _ => ⟨?_, ?_⟩, fun _ => rfl⟩,
      fun _ hpend => absurd hpending (hpend rfl)⟩
    · rw [decorate_eq]
    · rw [hword, hends]

end Annotation

end JpaScaffold.Java.Layout
