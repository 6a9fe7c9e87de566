import JpaScaffold.Proofs.Layout.Kept

/-!
# Moves keep what was said

Each move of a layout keeps what the tokens before it say and adds what its own tokens say, as long
as its comments fit into their place.
-/
namespace JpaScaffold.Java.Layout

open Text (trimEnd)

variable {o : Options} {s : State} {previous : Option Token} {t : Token} {rest : List Token}
  {w : List Content}

theorem keptImports_of_nil (h : s.imports = []) : s.keptImports = [] := by
  unfold State.keptImports
  split
  · rfl
  · exact h

theorem dueImports_of_nil (h : s.imports = []) : s.dueImports = [] := by
  unfold State.dueImports
  split
  · rw [h, sortedImports_nil]
  · rfl

/-- Lines behind the front of an element go on with what stands before it and with the imports that
are due. -/
theorem spells_emission {α : Type} {r : Reading α} {P : List Char → Prop}
    {lines : List (List Char)} {u i q : List α} (hi : Spells r AtGap (page s.dueImports) i)
    (hu : Spells r AtLineEnd (page s.out) u) (hq : Spells r P (page (s.setIn o lines)) q)
    (hne : lines ≠ []) (field : Bool) :
    Spells r P (page (s.out ++ s.frontLines field ++ s.setIn o lines)) (u ++ (i ++ q)) := by
  have hgap {more : List (List Char)} {v : List α} {gap : List (List Char)}
      (hg : gap = [] ∨ gap = [[]]) (hv : Spells r P (page more) v) (hm : more ≠ []) :
      Spells r P (page (gap ++ more)) v ∧ gap ++ more ≠ [] := by
    rcases hg with rfl | rfl
    · exact ⟨hv, hm⟩
    · exact ⟨hv.page_gap hm, by simp⟩
  have hne' : s.setIn o lines ≠ [] := by simpa [State.setIn] using hne
  obtain ⟨before, behind, hbefore, hbehind, hfront⟩ := frontLines_eq s field
  obtain ⟨hmember, hmne⟩ := hgap hbehind hq hne'
  have himports := hi.atLineEnd.page_append hmember hmne
  obtain ⟨hopening, hone⟩ := hgap hbefore himports (by simp [hmne])
  have hpage := hu.page_append hopening hone
  rw [hfront]
  simpa only [List.append_assoc] using hpage

theorem spells_emission_of_nil {P : List Char → Prop} {lines : List (List Char)}
    {u q : List Content} (hi : s.imports = []) (hu : Spells .contents AtLineEnd (page s.out) u)
    (hq : Spells .contents P (page (s.setIn o lines)) q) (hne : lines ≠ []) (field : Bool) :
    Spells .contents P (page (s.out ++ s.frontLines field ++ s.setIn o lines)) (u ++ q) := by
  have hnone : Spells Reading.contents AtGap (page s.dueImports) [] := by
    rw [dueImports_of_nil hi]
    exact spells_nil _ _
  exact spells_emission hnone hu hq hne field

theorem spells_setIn {α : Type} {r : Reading α} {P : List Char → Prop} {line : List Char}
    {q : List α} (h : Spells r P line q) : Spells r P (page (s.setIn o [line])) q := by
  simp only [State.setIn, List.map_cons, List.map_nil, page_singleton]
  exact h.indent _

theorem kind_of_isPunct {text : List Char} (h : t.isPunct text = true) : t.kind = .punct :=
  (Token.isPunct_iff.1 h).1

theorem content_of_isPunct {text : List Char} (h : t.isPunct text = true) :
    t.content = (.punct, text) := by
  obtain ⟨hk, ht⟩ := Token.isPunct_iff.1 h
  rw [Token.content, hk, ht]

theorem Kept.carry_eq_none (hk : Kept s previous (t :: rest) w) (hp : s.pending = [])
    (ht : t.kind ≠ .word) : s.carry = none := by
  by_contra hc
  have h := hk.continued hc
  rw [hp] at h
  exact ht (kind_of_isContinuation h)

theorem Kept.page_spells (hk : Kept s previous rest w) (hp : s.pending = [])
    (hc : s.carry = none) : Spells .contents AtLineEnd (page s.out) w ∧
      ((∀ p, previous = some p → p.kind ≠ .lineComment) → Spells .contents AtGap (page s.out) w) := by
  obtain ⟨u, v, rfl, hu, hv, hg⟩ := hk.spelled
  rw [hc] at hv
  obtain rfl := hv.eq_nil atLineEnd_nil.atGap
  simp only [hp, List.map_nil, List.append_nil]
  exact ⟨hu, hg hp hc⟩

theorem Kept.apart_behind (hk : Kept s previous (t :: rest) w) :
    Apart ((some t).toList ++ rest) :=
  hk.apart.of_append_right

theorem Kept.text_spells (hk : Kept s previous rest w) :
    ∃ u v, w = u ++ (v ++ s.pending.map Token.content) ∧ Spells .contents AtLineEnd (page s.out) u ∧
      Spells .contents AtGap (s.carry.getD []) v ∧ Spells .contents AtGap s.text (v ++ s.pending.map Token.content) := by
  obtain ⟨u, v, rfl, hu, hv, -⟩ := hk.spelled
  refine ⟨u, v, by rw [List.append_assoc], hu, hv, ?_⟩
  exact spells_withCarry hv (spells_joinTokens hk.legible.of_append_left hk.plain)

theorem Kept.decorate {lines : List (List Char)} {q : List Content} {previous' : Option Token}
    {rest' : List Token} (hk : Kept s previous rest w) (hp : s.pending = [])
    (hc : s.carry = none) (hne : lines ≠ []) (hl : Legible rest')
    (ha : Apart (previous'.toList ++ rest')) (hq : Spells .contents AtLineEnd (page (s.setIn o lines)) q)
    (hq' : (∀ p, previous' = some p → p.kind ≠ .lineComment) →
      Spells .contents AtGap (page (s.setIn o lines)) q) :
    Kept (s.decorate o lines) previous' rest' (w ++ q) := by
  have hu := (hk.page_spells hp hc).1
  rw [decorate_eq]
  exact kept_of_page (keptImports_of_nil hk.imports) hp hc hl ha
    (spells_emission_of_nil hk.imports hu hq hne false)
    fun h => spells_emission_of_nil hk.imports hu (hq' h) hne false

theorem lineComment_of_pending (h : s.pending ≠ []) :
    s.lineComment o t previous = { s with pending := s.pending ++ [inlined t] } := by
  rw [lineComment_eq, if_pos (by simp [h])]

theorem lineComment_of_start (o : Options) (t : Token) (previous : Option Token)
    (h : s.pending = []) (hi : s.imports = []) :
    s.lineComment o t previous = s.decorate o [trimEnd t.text] ∨
      (∃ p, previous = some p ∧ p.line = t.line) ∧ s.out ≠ [] ∧
        s.lineComment o t previous =
          { s with out := appendToLast (' ' :: trimEnd t.text) s.out } := by
  rw [lineComment_eq, if_neg (by simp [h]), if_neg (by simp [hi])]
  split
  · next hc =>
    simp only [Bool.and_eq_true, Bool.not_eq_true', List.isEmpty_eq_false_iff] at hc
    cases previous with
    | none => exact absurd hc.1 Bool.false_ne_true
    | some p => exact .inr ⟨⟨p, rfl, eq_of_beq hc.1⟩, hc.2, rfl⟩
  · exact .inl rfl

theorem Kept.lineComment (hk : Kept s previous (t :: rest) w) (ht : t.kind = .lineComment)
    (hu : s.pending ≠ [] → Unclosed t.text) :
    Kept (s.lineComment o t previous) (some t) rest (w ++ [s.rewritten o t]) := by
  by_cases hp : s.pending = []
  · have hc := hk.carry_eq_none hp (by rw [ht]; decide)
    have hleg : Legible (t :: rest) := hk.legible.of_append_right
    have hr : Reads .lineComment t.text [] := ht ▸ hleg.1.reads
    have hq : Spells .contents AtLineEnd (trimEnd t.text) [s.rewritten o t] := by
      have hw : s.rewritten o t = (.lineComment, trimEnd t.text) := by
        simp [State.rewritten, ht, hp]
      rw [hw]
      exact spells_of_reads fun next hn => reads_trimEnd hr hn
    have hlast : ¬ ∀ p, some t = some p → p.kind ≠ .lineComment := fun h => h t rfl ht
    rcases lineComment_of_start o t previous hp hk.imports with he | ⟨⟨p, rfl, hline⟩, ho, he⟩
    · rw [he]
      exact hk.decorate hp hc (by simp) hleg.2 hk.apart_behind (spells_setIn hq)
        fun h => absurd h hlast
    · -- a token stands before the comment on its line, so that token is no line comment itself
      rw [he]
      have hprev : ∀ q, some p = some q → q.kind ≠ .lineComment := by
        rintro q hq hkind
        cases hq
        have := hk.apart.1 hkind t rfl
        omega
      have hpage := (hk.page_spells hp hc).2 hprev
      refine kept_of_page hk.imports hp hc hleg.2 hk.apart_behind ?_ fun h => absurd h hlast
      rw [page_appendToLast ho]
      exact hpage.append (hq.blank (by decide)) fun next _ => atGap_cons (by decide) _
  · rw [lineComment_of_pending hp]
    obtain ⟨u, v, rfl, hsu, hsv, -⟩ := hk.spelled
    have hw : s.rewritten o t = (inlined t).content := by simp [State.rewritten, ht, hp]
    refine ⟨hk.imports, noLineComment_concat.2 ⟨hk.plain, by simp [inlined]⟩, ?_, hk.apart_behind,
      fun hc => ?_, u, v, ?_, hsu, hsv, ?_⟩
    · rw [List.append_assoc]
      exact legible_inlined hk.legible hk.plain ht (hu hp)
    · have h := hk.continued hc
      obtain ⟨x, xs, hx⟩ := List.exists_cons_of_ne_nil hp
      rw [hx] at h
      simpa [hx] using h
    · simp [hw]
    · intro h
      simp at h

theorem Kept.apart_of_taken {taken rest' : List Token} (hk : Kept s previous rest w)
    (hr : rest = taken ++ rest') (hne : taken ≠ []) :
    Apart (taken.getLast?.toList ++ rest') := by
  have ha := hk.apart
  rw [hr] at ha
  have hlast : taken.dropLast ++ taken.getLast?.toList = taken := by
    rw [List.getLast?_eq_getLast_of_ne_nil hne]
    exact List.dropLast_concat_getLast hne
  rw [← hlast, List.append_assoc, ← List.append_assoc] at ha
  exact ha.of_append_right

theorem Kept.blockComment (hk : Kept s previous (t :: rest) w) (ht : t.kind = .blockComment)
    (hs : s.atStart = true) :
    Kept (s.decorate o (commentLines t.text)) (some t) rest (w ++ [s.rewritten o t]) := by
  obtain ⟨hp, hc⟩ := State.atStart_iff.1 hs
  have hleg : Legible (t :: rest) := hk.legible.of_append_right
  have hr : Reads .blockComment t.text [] := ht ▸ hleg.1.reads
  have hw : s.rewritten o t = (.blockComment, laidComment (s.indent o) t.text) := by
    simp [State.rewritten, ht, hs]
  have hq : Spells .contents AtGap (page (s.setIn o (commentLines t.text))) [s.rewritten o t] := by
    rw [hw, State.setIn, page_commentLines hr]
    exact Spells.indent (spells_of_reads fun next _ => reads_laidComment hr _ next) _
  exact hk.decorate hp hc (commentLines_ne_nil hr) hleg.2 hk.apart_behind hq.atLineEnd fun _ => hq

theorem Kept.decoration {name : Token} {more tail rest' : List Token}
    (hk : Kept s previous (t :: name :: more) w) (hs : s.atStart = true)
    (ht : annotationTail more = some (tail, rest')) (hn : NoLineComment (t :: name :: tail)) :
    Kept (s.decorate o [joinTokens (t :: name :: tail)]) (t :: name :: tail).getLast? rest'
      (w ++ (t :: name :: tail).map Token.content) := by
  obtain ⟨hp, hc⟩ := State.atStart_iff.1 hs
  have hr : t :: name :: more = (t :: name :: tail) ++ rest' := by
    rw [← annotationTail_append ht]
    rfl
  have hleg : Legible ((t :: name :: tail) ++ rest') := hr ▸ hk.legible.of_append_right
  have hq : Spells .contents AtGap (page (s.setIn o [joinTokens (t :: name :: tail)])) _ :=
    spells_setIn (spells_joinTokens hleg.of_append_left hn)
  exact hk.decorate hp hc (by simp) hleg.of_append_right (hk.apart_of_taken hr (by simp))
    hq.atLineEnd fun _ => hq

theorem kept_emitMember {lines : List (List Char)} {u q : List Content} (hi : s.imports = [])
    (hu : Spells .contents AtLineEnd (page s.out) u) (hq : Spells .contents AtGap (page (s.setIn o lines)) q)
    (hne : lines ≠ []) (hl : Legible rest) (ha : Apart (previous.toList ++ rest))
    (field : Bool) : Kept (s.clearStatement.emitMember o lines field) previous rest (u ++ q) := by
  rw [emitMember_eq]
  exact kept_of_gap (keptImports_of_nil (by exact hi)) rfl rfl hl ha
    (spells_emission_of_nil hi hu hq hne field)

theorem spells_mark {c : Char} (h : c ∈ marks) : Spells .contents AtGap [c] [(.punct, [c])] :=
  spells_of_reads fun next _ => reads_mark h next

theorem spells_braces {a b : Token} (ha : a.isPunct ['{'] = true) (hb : b.isPunct ['}'] = true) :
    Spells .contents AtGap ['{', '}'] [a.content, b.content] := by
  rw [content_of_isPunct ha, content_of_isPunct hb]
  have hopen : Spells .contents (fun _ => True) ['{'] [(.punct, ['{'])] :=
    spells_of_reads fun next _ => reads_mark (by decide) next
  exact hopen.append (spells_mark (by decide)) fun _ _ => trivial

theorem Kept.emptyBlock {next : Token} {rest' : List Token}
    (hk : Kept s previous (t :: next :: rest') w) (ht : t.isPunct ['{'] = true)
    (hn : next.isPunct ['}'] = true) :
    Kept (s.emptyBlock o rest'.head?) (some next) rest' (w ++ [t.content, next.content]) := by
  obtain ⟨u, v, rfl, hu, hv, htext⟩ := hk.text_spells
  have hleg : Legible rest' := by
    have h : Legible (s.pending ++ [t, next] ++ rest') := by simpa using hk.legible
    exact h.of_append_right
  have ha : Apart ((some next).toList ++ rest') := @Kept.apart_of_taken _ _ _ _ [t, next] _ hk rfl (by simp)
  have hq := spells_withBrace htext (spells_braces ht hn)
  rw [List.append_assoc]
  unfold State.emptyBlock
  split
  · next hc =>
    refine ⟨hk.imports, noLineComment_nil, hleg, ha, fun _ => hc, u, _, ?_, hu, hq,
      fun _ h => by cases h⟩
    simp [State.clearStatement]
  · exact kept_emitMember hk.imports hu (spells_setIn hq) (by simp) hleg ha false

theorem Kept.scoped (hk : Kept s previous rest w) (scope : Scope) (outer : List Scope) :
    Kept { s with scope, outer } previous rest w :=
  ⟨hk.imports, hk.plain, hk.legible, hk.apart, hk.continued, hk.spelled⟩

theorem Kept.openBlock (hk : Kept s previous (t :: rest) w) (ht : t.isPunct ['{'] = true) :
    Kept (s.openBlock o t.line) (some t) rest (w ++ [t.content]) := by
  obtain ⟨u, v, rfl, hu, hv, htext⟩ := hk.text_spells
  have hleg : Legible (t :: rest) := hk.legible.of_append_right
  have hb : Spells .contents AtGap ['{'] [t.content] := by
    rw [content_of_isPunct ht]
    exact spells_mark (by decide)
  have hq := spells_withBrace htext hb
  rw [List.append_assoc]
  exact (kept_emitMember hk.imports hu (spells_setIn hq) (by simp) hleg.2 hk.apart_behind
    false).scoped _ _

theorem Kept.statement (hk : Kept s previous (t :: rest) w) (ht : t.isPunct [';'] = true)
    (hn : s.nesting = []) (hi : Visit.endsImport ⟨s, [t], rest⟩ = false) :
    Kept (State.endStatement { s with pending := s.pending ++ [t] } o) (some t) rest
      (w ++ [t.content]) := by
  obtain ⟨u, v, rfl, hu, hv, -⟩ := hk.text_spells
  have hleg : Legible (s.pending ++ [t] ++ rest) := by simpa using hk.legible
  have hplain : NoLineComment (s.pending ++ [t]) :=
    noLineComment_concat.2 ⟨hk.plain, by simp [kind_of_isPunct ht]⟩
  have hq := spells_statementLines (o := o) (s := { s with pending := s.pending ++ [t] })
    hleg.of_append_left hplain hv (s.indent o)
  rw [say_pieces] at hq
  have hw : u ++ (v ++ s.pending.map Token.content) ++ [t.content] =
      u ++ (v ++ (s.pending ++ [t]).map Token.content) := by simp
  rw [hw]
  rw [endStatement_of_member]
  · exact kept_emitMember (s := { s with pending := s.pending ++ [t] }) hk.imports hu hq
      (statementLines_ne_nil _ _) hleg.of_append_right hk.apart_behind _
  · -- an import of the file would end here
    intro hfile
    have hfile : s.scope.kind = .file := hfile
    simp only [Visit.endsImport, hfile, hn, ht, beq_self_eq_true, List.isEmpty_nil, Bool.true_and,
      Bool.and_true] at hi
    cases hp : s.pending with
    | nil => simp [startsImport, Token.isTheWord, kind_of_isPunct ht]
    | cons x xs =>
      rw [hp] at hi
      exact hi

theorem Kept.closeBlock {s' : State} (hk : Kept s previous (t :: rest) w)
    (ht : t.isPunct ['}'] = true) (hs : s.closeBlock o t.line rest.head? = .ok s') :
    Kept s' (some t) rest (w ++ [t.content]) := by
  have hleg : Legible (t :: rest) := hk.legible.of_append_right
  have hb : Spells .contents AtGap ['}'] [t.content] := by
    rw [content_of_isPunct ht]
    exact spells_mark (by decide)
  obtain ⟨around, outer, -, -, rfl⟩ := closeBlock_eq_ok.1 hs
  obtain ⟨hi, hp, hc, hw⟩ : (s.settled o).imports = [] ∧ (s.settled o).pending = [] ∧
      (s.settled o).carry = none ∧ Spells .contents AtLineEnd (page (s.settled o).out) w := by
    unfold State.settled
    split
    · next hp =>
      have hp := List.isEmpty_iff.1 hp
      have hc := hk.carry_eq_none hp (by rw [kind_of_isPunct ht]; decide)
      exact ⟨hk.imports, hp, hc, (hk.page_spells hp hc).1⟩
    · obtain ⟨u, v, rfl, hu, hv, -⟩ := hk.text_spells
      have hq := spells_statementLines (o := o) hk.legible.of_append_left hk.plain hv (s.indent o)
      rw [say_pieces] at hq
      have hm := kept_emitMember hk.imports hu hq (statementLines_ne_nil _ _) hleg hk.apart true
      have hp : (s.clearStatement.emitMember o (s.statementLines o) true).pending = [] := by
        rw [emitMember_pending]
        rfl
      have hc : (s.clearStatement.emitMember o (s.statementLines o) true).carry = none := by
        rw [emitMember_carry]
        rfl
      exact ⟨hm.imports, hp, hc, (hm.page_spells hp hc).1⟩
  unfold State.left
  split
  · next hcont =>
    exact ⟨hi, by simp [hp, noLineComment_nil], by simpa [hp] using hleg.2, hk.apart_behind,
      fun _ => by simpa [hp] using hcont, w, [t.content], by simp [hp], hw, hb,
      fun _ h => by cases h⟩
  · refine kept_of_gap hi hp hc hleg.2 hk.apart_behind ?_
    refine hw.page_append ?_ (by simp)
    rw [page_singleton]
    exact hb.indent _

theorem pushToken_eq {s' : State} (h : s.pushToken t = .ok s') :
    s' = { s with
      pending := s.pending ++ [t], nesting := s'.nesting, assigned := s'.assigned } := by
  unfold State.pushToken at h
  split at h
  · cases h; rfl
  · split at h
    · split at h
      · cases h; rfl
      · cases h
    · cases h
  · cases h; rfl

theorem Kept.token {s' : State} (hk : Kept s previous (t :: rest) w) (ht : t.kind ≠ .lineComment)
    (hs : s.pushToken t = .ok s') : Kept s' (some t) rest (w ++ [t.content]) := by
  obtain ⟨u, v, rfl, hu, hv, -⟩ := hk.spelled
  rw [pushToken_eq hs]
  refine ⟨hk.imports, noLineComment_concat.2 ⟨hk.plain, ht⟩, by simpa using hk.legible,
    hk.apart_behind, fun hc => ?_, u, v, by simp, hu, hv, fun h => by simp at h⟩
  have h := hk.continued hc
  simpa using h

theorem rewritten_of_code (ht : t.kind ≠ .lineComment)
    (hb : t.kind = .blockComment → s.atStart = false) : s.rewritten o t = t.content := by
  unfold State.rewritten
  rw [if_neg ht, if_neg]
  rintro ⟨hk, hs⟩
  rw [hb hk] at hs
  cases hs

theorem rewritten_of_isPunct {text : List Char} (ht : t.isPunct text = true) :
    s.rewritten o t = t.content := by
  have hk := kind_of_isPunct ht
  exact rewritten_of_code (by simp [hk]) (by simp [hk])

/-- A move whose comments fit keeps what the tokens say. -/
theorem Kept.move {p : Progress} {taken : List Token} (hk : Kept s previous (t :: rest) w)
    (hm : Move o s previous t rest p) (ht : t :: rest = taken ++ p.rest)
    (hf : Visit.Fits ⟨s, taken, p.rest⟩) (hi : Visit.endsImport ⟨s, taken, p.rest⟩ = false) :
    Kept p.state p.previous p.rest (w ++ Visit.written ⟨s, taken, p.rest⟩ o) := by
  have alone (h : [t] ++ rest = taken ++ rest) : taken = [t] :=
    (List.append_cancel_right h).symm
  cases hm with
  | lineComment hc =>
    obtain rfl := alone ht
    exact hk.lineComment hc (hf hc)
  | blockComment hc hs =>
    obtain rfl := alone ht
    exact hk.blockComment hc hs
  | @decoration name more tail rest' hr hs _ hta =>
    subst hr
    rw [← annotationTail_append hta] at ht
    obtain rfl : t :: name :: tail = taken := List.append_cancel_right ht
    exact hk.decoration hs hta hf
  | @emptyBlock next rest' hr hb _ _ hn =>
    subst hr
    obtain rfl : [t, next] = taken := List.append_cancel_right ht
    exact hk.emptyBlock hb hn
  | openBlock hb =>
    obtain rfl := alone ht
    simp only [Visit.written, rewritten_of_isPunct hb]
    exact hk.openBlock hb
  | closeBlock hb _ hs =>
    obtain rfl := alone ht
    simp only [Visit.written, rewritten_of_isPunct hb]
    exact hk.closeBlock hb hs
  | statement hb hn =>
    obtain rfl := alone ht
    simp only [Visit.written, rewritten_of_isPunct hb]
    exact hk.statement hb hn hi
  | token hl hb _ _ _ _ hs =>
    obtain rfl := alone ht
    simp only [Visit.written, rewritten_of_code hl hb]
    exact hk.token hl hs

end JpaScaffold.Java.Layout
