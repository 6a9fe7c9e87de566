import JpaScaffold.Proofs.Layout.Annotations
import JpaScaffold.Proofs.Layout.Growth
import JpaScaffold.Proofs.Layout.Keeping

/-!
# Code is kept

The layout of a source without imports is read back as the source, comments as the layout writes
them, if and only if every comment fits into its place; the code between the comments is then the
code of the source. A comment that does not fit closes itself too early, or takes the rest of its
line with it.
-/
namespace JpaScaffold.Java.Layout

open Text (isBlank)

/-- The source holds no import statement. -/
def ImportFree (o : Options) (ts : List Token) : Prop :=
  ∀ v ∈ visits o {} none ts, v.endsImport = false

/-- Every comment fits into the place where the layout puts it. -/
def CommentsFit (o : Options) (ts : List Token) : Prop := ∀ v ∈ visits o {} none ts, v.Fits

/-- What the tokens say once they are laid out. -/
def laidOut (o : Options) (ts : List Token) : List Content :=
  (visits o {} none ts).flatMap (·.written o)

/-- The code among some contents: all but the comments. -/
def codeOf (cs : List Content) : List Content :=
  cs.filter fun c => c.1 != .lineComment && c.1 != .blockComment

theorem reads_of_contents {cs : List Char} {w : List Content} (h : contents cs = some w) :
    ∀ c ∈ w, Reads c.1 c.2 [] := by
  obtain ⟨ts, ht, rfl⟩ := exists_tokens_of_contents h
  intro c hc
  obtain ⟨t, hmem, rfl⟩ := List.mem_map.1 hc
  have hl := legible_of_tokenize ht
  obtain ⟨as, bs, rfl⟩ := List.append_of_mem hmem
  exact hl.of_append_right.1.reads

/-- Behind a comment in an annotation stands another token of it. -/
theorem annotationTail_behind {ts bs as rest : List Token} {c : Token}
    (h : annotationTail ts = some (as ++ c :: bs, rest)) (hc : c.isComment = true) : bs ≠ [] := by
  rintro rfl
  unfold annotationTail at h
  have hd := dottedTail_kinds ts
  split at h
  · next name t rest' hs =>
    rw [hs] at hd
    split at h
    · next ht =>
      obtain ⟨⟨a, r⟩, ha, he⟩ := Option.map_eq_some_iff.1 h
      simp only [Prod.mk.injEq] at he
      obtain ⟨x, hx, hp⟩ := argumentTail_getLast ha
      have hlast := congrArg List.getLast? he.1
      rw [List.getLast?_append_of_ne_nil _ (by simp), List.getLast?_cons, hx,
        List.getLast?_append_of_ne_nil _ (by simp)] at hlast
      obtain rfl : x = c := by simpa using hlast
      simp [Token.isComment, kind_of_isPunct hp] at hc
    · simp only [Option.some.injEq, Prod.mk.injEq] at h
      rw [hd c (by rw [h.1]; simp)] at hc
      cases hc
  · next name hs =>
    rw [hs] at hd
    simp only [Option.some.injEq, Prod.mk.injEq] at h
    rw [hd c (by rw [h.1]; simp)] at hc
    cases hc

theorem exists_lineComment {ts : List Token} (h : ¬ NoLineComment ts) :
    ∃ as c bs, ts = as ++ c :: bs ∧ NoLineComment as ∧ c.kind = .lineComment := by
  induction ts with
  | nil => exact absurd noLineComment_nil h
  | cons t ts ih =>
    by_cases ht : t.kind = .lineComment
    · exact ⟨[], t, ts, rfl, noLineComment_nil, ht⟩
    · obtain ⟨as, c, bs, rfl, has, hc⟩ := ih fun hn => h (noLineComment_cons.2 ⟨ht, hn⟩)
      exact ⟨t :: as, c, bs, rfl, noLineComment_cons.2 ⟨ht, has⟩, hc⟩

theorem contents_lineComment {more next : List Char} (h : '\n' ∉ more) :
    contents ('/' :: '/' :: more ++ next) =
      (contents (next.dropWhile (· ≠ '\n'))).map
        ((.lineComment, '/' :: '/' :: more ++ next.takeWhile (· ≠ '\n')) :: ·) := by
  have hline : AtLineEnd (next.dropWhile (· ≠ '\n')) := by
    intro c hc
    have hd := List.head?_dropWhile_not (· ≠ '\n') next
    rw [hc] at hd
    simpa using hd
  have hmore : '\n' ∉ more ++ next.takeWhile (· ≠ '\n') := by
    rw [List.mem_append, not_or]
    refine ⟨h, fun hc => ?_⟩
    have hne := List.mem_takeWhile_imp hc
    simp at hne
  have hr := contents_append (reads_lineComment hmore hline)
  have hsplit := @List.takeWhile_append_dropWhile Char (· ≠ '\n') next
  conv_lhs => rw [← hsplit]
  simpa using hr

variable {o : Options} {s : State} {previous : Option Token} {t : Token} {rest : List Token}
  {w : List Content}

/-- A line comment in an annotation stands behind its name, and another token of it follows. -/
theorem exists_lineComment_of_annotation {name : Token} {more tail rest' : List Token}
    (ha : startsAnnotation t (name :: more) = true) (ht : annotationTail more = some (tail, rest'))
    (hn : ¬ NoLineComment (t :: name :: tail)) :
    ∃ as c b bs, tail = as ++ c :: b :: bs ∧ NoLineComment (t :: name :: as) ∧
      c.kind = .lineComment := by
  obtain ⟨as, c, bs, hsplit, has, hck⟩ := exists_lineComment hn
  simp only [ startsAnnotation, Bool.and_eq_true] at ha
  -- the comment is neither the mark nor the name
  rcases as with _ | ⟨a, _ | ⟨b, as⟩⟩
  · obtain ⟨rfl, -⟩ := List.cons.inj hsplit
    simp [kind_of_isPunct ha.1.1] at hck
  · simp only [List.cons_append, List.nil_append, List.cons.injEq] at hsplit
    obtain ⟨-, rfl, -⟩ := hsplit
    simp [eq_of_beq ha.1.2] at hck
  · simp only [List.cons_append, List.cons.injEq] at hsplit
    obtain ⟨rfl, rfl, rfl⟩ := hsplit
    obtain ⟨b, bs, rfl⟩ := List.exists_cons_of_ne_nil
      (annotationTail_behind ht (by simp [Token.isComment, hck]))
    exact ⟨as, c, b, bs, rfl, has, hck⟩

/-- A line comment takes what follows on its line with it. -/
theorem contents_spread_lineComment {c b : Token} {bs : List Token} (hl : Legible (c :: b :: bs))
    (hc : c.kind = .lineComment) (after : List Char) (z : List Content) :
    contents (spread (c :: b :: bs) ++ after) ≠ some ((c :: b :: bs).map Token.content ++ z) := by
  obtain ⟨m, hm, hnl⟩ : ∃ m, c.text = '/' :: '/' :: m ∧ '\n' ∉ m :=
    lineComment_of_reads (hc ▸ hl.1.reads)
  have hlost : contents (spread (c :: b :: bs) ++ after) =
      contents (c.text ++ (spread (b :: bs) ++ after)) := by
    rw [spread_cons, List.append_assoc]
    split
    · rw [List.cons_append, contents_blank (by decide)]
    · rfl
  rw [hlost, hm, contents_lineComment hnl]
  intro h
  obtain ⟨es, -, he⟩ := Option.map_eq_some_iff.1 h
  -- so the comment would be all of its line, but the token behind it stands there
  have htext : '/' :: '/' :: m ++ (spread (b :: bs) ++ after).takeWhile (· ≠ '\n') = c.text := by
    simp only [List.map_cons, List.cons_append, List.cons.injEq, Token.content, Prod.mk.injEq] at he
    exact he.1.2
  rw [hm, List.append_right_eq_self] at htext
  obtain ⟨d, rest, hd, hb, -⟩ := hl.2.1.reads
  rw [spread_cons] at htext
  split at htext
  · exact absurd htext (by simp)
  · have hne : d ≠ '\n' := by
      rintro rfl
      exact absurd hb (by decide)
    rw [hd] at htext
    simp [hne] at htext

/-- An annotation with a line comment in it is not read back: the comment takes the rest of the
annotation with it. -/
theorem Kept.lost {name : Token} {more tail rest' : List Token} {text : List Char}
    (hk : Kept s previous (t :: name :: more) w) (hs : s.atStart = true)
    (ha : startsAnnotation t (name :: more) = true)
    (ht : annotationTail more = some (tail, rest')) (hn : ¬ NoLineComment (t :: name :: tail))
    (hx : Extends (page (s.decorate o [joinTokens (t :: name :: tail)]).out) text)
    (z : List Content) : contents text ≠ some (w ++ (t :: name :: tail).map Token.content ++ z) := by
  obtain ⟨hp, hc⟩ := State.atStart_iff.1 hs
  obtain ⟨as, c, b, bs, rfl, has, hck⟩ := exists_lineComment_of_annotation ha ht hn
  have hleg : Legible ((t :: name :: as) ++ (c :: b :: bs)) := by
    have h := hk.legible.of_append_right
    rw [← annotationTail_append ht] at h
    have h' : Legible ((t :: name :: as) ++ (c :: b :: bs) ++ rest') := by simpa using h
    exact h'.of_append_left
  obtain ⟨after, rfl, hgap⟩ := hx
  have hhead : Spells .contents (Follows (c :: b :: bs)) (joinTokens (t :: name :: as))
      ((t :: name :: as).map Token.content) := fun next hf => contents_joinTokens hleg has hf
  have hpage := spells_emission_of_nil (o := o) hk.imports (hk.page_spells hp hc).1 (spells_setIn hhead)
    (by simp) false
  have hjoin : joinTokens (t :: name :: (as ++ c :: b :: bs)) =
      joinTokens (t :: name :: as) ++ spread (c :: b :: bs) := by
    simp [joinTokens, spread]
  have hfollows : Follows (c :: b :: bs) (spread (c :: b :: bs) ++ after) := by
    have h := follows_spread (c :: b :: bs) (hgap.follows [])
    rwa [List.append_nil] at h
  have hout : page (s.decorate o [joinTokens (t :: name :: (as ++ c :: b :: bs))]).out =
      page (s.out ++ s.frontLines false ++ s.setIn o [joinTokens (t :: name :: as)]) ++
        spread (c :: b :: bs) := by
    rw [decorate_eq, hjoin]
    simp only [State.setIn, List.map_cons, List.map_nil]
    rw [← List.append_assoc (List.replicate _ _), page_concat]
  rw [hout, List.append_assoc, hpage.contents_eq hfollows]
  intro h
  obtain ⟨ds, hds, he⟩ := Option.map_eq_some_iff.1 h
  have hrest : ds = (c :: b :: bs).map Token.content ++ z := by simpa using he
  exact contents_spread_lineComment hleg.of_append_right hck after z (hds.trans (congrArg some hrest))

/-- A comment that is read back fits into its place. -/
theorem Kept.fits {p : Progress} {taken : List Token} {text : List Char}
    (hk : Kept s previous (t :: rest) w) (hm : Move o s previous t rest p)
    (ht : t :: rest = taken ++ p.rest) (hx : p.state.out ≠ [] → Extends (page p.state.out) text)
    {z : List Content} (h : contents text = some (w ++ Visit.written ⟨s, taken, p.rest⟩ o ++ z)) :
    Visit.Fits ⟨s, taken, p.rest⟩ := by
  have alone (h : [t] ++ rest = taken ++ rest) : taken = [t] :=
    (List.append_cancel_right h).symm
  have single (ht : taken = [t]) (hc : t.kind ≠ .lineComment) : Visit.Fits ⟨s, taken, rest⟩ := by
    subst ht
    exact fun hc' => absurd hc' hc
  cases hm with
  | lineComment hc =>
    obtain rfl := alone ht
    intro _ hp
    have hw : s.rewritten o t = (inlined t).content := by simp [State.rewritten, hc, hp]
    have hmem : (inlined t).content ∈ w ++ Visit.written ⟨s, [t], rest⟩ o ++ z := by
      simp [Visit.written, hw]
    have hr := reads_inlineComment.1 (reads_of_contents h _ hmem)
    exact unclosed_trimEnd.1 hr
  | blockComment hc => exact single (alone ht) (by simp [hc])
  | @decoration name more tail rest' hr hs ha hta =>
    subst hr
    rw [← annotationTail_append hta] at ht
    obtain rfl : t :: name :: tail = taken := List.append_cancel_right ht
    by_contra hn
    have hne : (s.decorate o [joinTokens (t :: name :: tail)]).out ≠ [] := by
      rw [decorate_eq]
      simp [State.setIn]
    exact hk.lost hs ha hta hn (hx hne) z h
  | @emptyBlock next rest' hr hb _ _ hn =>
    subst hr
    obtain rfl : [t, next] = taken := List.append_cancel_right ht
    simp [Visit.Fits, noLineComment_cons, noLineComment_nil, kind_of_isPunct hb,
      kind_of_isPunct hn]
  | openBlock hb => exact single (alone ht) (by simp [kind_of_isPunct hb])
  | closeBlock hb => exact single (alone ht) (by simp [kind_of_isPunct hb])
  | statement hb => exact single (alone ht) (by simp [kind_of_isPunct hb])
  | token hl => exact single (alone ht) hl

theorem Kept.contents_finish {text : List Char} (hk : Kept s previous [] w)
    (hf : finish o s = .ok text) : contents text = some w := by
  obtain ⟨hp, -, -, rfl⟩ := finish_eq_ok.1 hf
  have hc : s.carry = none := by
    by_contra hc
    have h := hk.continued hc
    rw [hp] at h
    cases h
  have hpage := (hk.page_spells hp hc).1
  simp only [State.finished, hc, Option.toList_none, List.map_nil, List.append_nil, State.importLines,
    hk.imports,
    List.isEmpty_nil, if_true]
  by_cases ho : s.out = []
  · rw [ho] at hpage ⊢
    obtain rfl := hpage.eq_nil atLineEnd_nil
    exact contents_nil
  · rw [unlines_eq_page ho, hpage.contents_eq (atLineEnd_cons []), contents_blank (by decide), contents_nil]
    simp

/-- The rest of a layout is read back if and only if its comments fit. -/
theorem contents_finish_iff {ts : List Token} {s' : State} {text : List Char}
    (ht : Trace o s previous ts s') (hk : Kept s previous ts w) (hf : finish o s' = .ok text)
    (hi : ∀ v ∈ visits o s previous ts, v.endsImport = false) :
    contents text = some (w ++ (visits o s previous ts).flatMap (·.written o)) ↔
      ∀ v ∈ visits o s previous ts, v.Fits := by
  induction ht generalizing w with
  | nil s previous =>
    simp only [visits_nil, List.flatMap_nil, List.append_nil]
    exact ⟨fun _ => List.forall_mem_nil _, fun _ => hk.contents_finish hf⟩
  | @cons s s' previous t rest p hm ht ih =>
    obtain ⟨taken, htaken, -, -⟩ := exists_taken hm
    rw [visits_cons hm htaken] at hi ⊢
    rw [List.forall_mem_cons] at hi ⊢
    rw [List.flatMap_cons, ← List.append_assoc]
    constructor
    · intro h
      have hfit := hk.fits hm htaken (ht.extends_finish hf) h
      exact ⟨hfit, (ih (hk.move hm htaken hfit hi.1) hf hi.2).1 h⟩
    · rintro ⟨hfit, hrest⟩
      exact (ih (hk.move hm htaken hfit hi.1) hf hi.2).2 hrest

theorem codeOf_append (as bs : List Content) : codeOf (as ++ bs) = codeOf as ++ codeOf bs :=
  List.filter_append ..

theorem codeOf_written (v : Visit) (o : Options) :
    codeOf (v.written o) = codeOf (v.taken.map Token.content) := by
  unfold Visit.written
  split
  · next t ht =>
    rw [ht]
    unfold State.rewritten
    split
    · next hk => split <;> simp [codeOf, Token.content, inlined, hk]
    · split
      · next hk => simp [codeOf, Token.content, hk.1]
      · rfl
  · rfl

theorem codeOf_visits {ts : List Token} {s' : State} (ht : Trace o s previous ts s') :
    codeOf ((visits o s previous ts).flatMap (·.written o)) = codeOf (ts.map Token.content) := by
  induction ht with
  | nil => simp
  | cons hm ht ih =>
    obtain ⟨taken, htaken, -, -⟩ := exists_taken hm
    rw [visits_cons hm htaken, List.flatMap_cons, codeOf_append, codeOf_written, ih, htaken,
      List.map_append, codeOf_append]

/-- The layout of a source without imports is read back as the source, comments as the layout
writes them, if and only if every comment fits; then the code of the source is kept. -/
theorem layout_keeps_code {source text : List Char} {ts : List Token}
    (ht : tokenize source = .ok ts) (hi : ImportFree o ts) (hf : format o source = .ok text) :
    ((∃ us, tokenize text = .ok us ∧ us.map Token.content = laidOut o ts) ↔ CommentsFit o ts) ∧
      (CommentsFit o ts → ∃ us, tokenize text = .ok us ∧
        codeOf (us.map Token.content) = codeOf (ts.map Token.content)) := by
  obtain ⟨ts', s', ht', htrace, hfin⟩ := format_eq_ok.1 hf
  rw [ht] at ht'
  cases ht'
  have hiff := contents_finish_iff htrace
    (kept_start (legible_of_tokenize ht) (apart_of_tokenize ht)) hfin hi
  rw [List.nil_append, contents_eq_some_iff] at hiff
  refine ⟨hiff, fun hfit => ?_⟩
  obtain ⟨us, hus, hw⟩ := hiff.2 hfit
  exact ⟨us, hus, by rw [hw, codeOf_visits htrace]⟩

/-- The tokens of a call with a line comment in it. -/
def commentedCall : List Token :=
  [⟨.word, ['f'], false, 1⟩, ⟨.punct, ['('], false, 1⟩, ⟨.lineComment, ['/', '/', 'a'], false, 1⟩,
    ⟨.punct, [')'], true, 2⟩, ⟨.punct, [';'], false, 2⟩]

theorem layout_keeps_code_of_call :
    tokenize "f(//a\n);".toList = .ok commentedCall ∧ ImportFree ⟨2, 100⟩ commentedCall ∧
      format ⟨2, 100⟩ "f(//a\n);".toList = .ok "f(/* a */ );\n".toList ∧
      CommentsFit ⟨2, 100⟩ commentedCall ∧
      ∃ us, tokenize "f(/* a */ );\n".toList = .ok us ∧
        codeOf (us.map Token.content) = codeOf (commentedCall.map Token.content) := by
  have ht : tokenize "f(//a\n);".toList = .ok commentedCall := by decide +kernel
  have hi : ImportFree ⟨2, 100⟩ commentedCall := by
    have hall : ((visits ⟨2, 100⟩ {} none commentedCall).all fun v => !v.endsImport) = true := by
      decide +kernel
    intro v hv
    simpa using List.all_eq_true.1 hall v hv
  have hf : format ⟨2, 100⟩ "f(//a\n);".toList = .ok "f(/* a */ );\n".toList := by decide +kernel
  obtain ⟨hread, hcode⟩ := layout_keeps_code ht hi hf
  have hfit := hread.1 (contents_eq_some_iff.1 (by decide +kernel))
  exact ⟨ht, hi, hf, hfit, hcode hfit⟩

end JpaScaffold.Java.Layout
