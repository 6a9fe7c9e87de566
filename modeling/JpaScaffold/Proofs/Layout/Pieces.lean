import JpaScaffold.Proofs.Layout.Page

/-!
# The pieces of a statement

A statement is written in one piece, or in one piece for each call of a chain if it is too wide.
The pieces hold the tokens of the statement in order.
-/
namespace JpaScaffold.Java.Layout

theorem chainPieces_append (depth : Nat) (ts : List Token) :
    (chainPieces depth ts).1 ++ (chainPieces depth ts).2.flatten = ts := by
  fun_induction chainPieces depth ts with
  | case1 => rfl
  | case2 => rfl
  | case3 depth t dot rest d first more hp hc ih =>
    rw [hp] at ih
    simpa using ih
  | case4 depth t dot rest d first more hp hc ih =>
    rw [hp] at ih
    simpa using ih

/-- The first piece of a statement and the pieces behind it. -/
def State.pieces (s : State) (o : Options) : List Token × List (List Token) :=
  if s.indent o + s.text.length ≤ o.printWidth then (s.pending, []) else chainPieces 0 s.pending

theorem pieces_append (s : State) (o : Options) :
    (s.pieces o).1 ++ (s.pieces o).2.flatten = s.pending := by
  unfold State.pieces
  split
  · simp
  · exact chainPieces_append 0 s.pending

theorem statementLines_eq (s : State) (o : Options) :
    s.statementLines o = withCarry s.carry (joinTokens (s.pieces o).1) ::
      (s.pieces o).2.map fun piece => List.replicate o.tabWidth ' ' ++ joinTokens piece := by
  unfold State.statementLines State.pieces
  split
  · rfl
  · rfl

theorem statementLines_ne_nil (s : State) (o : Options) : s.statementLines o ≠ [] := by
  rw [statementLines_eq]
  simp

variable {α : Type} {r : Reading α}

theorem spells_pieces {ps : List (List Token)} (h : Legible ps.flatten)
    (hk : NoLineComment ps.flatten) (n : Nat) :
    List.Forall₂ (Spells r AtGap) (ps.map fun p => List.replicate n ' ' ++ joinTokens p)
      (ps.map r.say) := by
  induction ps with
  | nil => exact .nil
  | cons p ps ih =>
    rw [List.flatten_cons] at h hk
    obtain ⟨hp, hps⟩ := noLineComment_append.1 hk
    exact .cons ((spells_joinTokens h.of_append_left hp).indent n) (ih h.of_append_right hps)

/-- A statement spells the pieces it is written in, behind the block that it continues. -/
theorem spells_statementLines {o : Options} {s : State} {v : List α} (h : Legible s.pending)
    (hk : NoLineComment s.pending) (hc : Spells r AtGap (s.carry.getD []) v) (n : Nat) :
    Spells r AtGap (page ((s.statementLines o).map (List.replicate n ' ' ++ ·)))
      (v ++ (r.say (s.pieces o).1 ++ ((s.pieces o).2.map r.say).flatten)) := by
  rw [← pieces_append s o] at h hk
  obtain ⟨hfirst, hmore⟩ := noLineComment_append.1 hk
  have hf := spells_withCarry hc (spells_joinTokens h.of_append_left hfirst)
  have hm := spells_pieces (r := r) h.of_append_right hmore o.tabWidth
  have hp := spells_page_indent (.cons hf hm) n
  rw [List.flatten_cons, List.append_assoc] at hp
  rw [statementLines_eq]
  exact hp

theorem say_pieces (s : State) (o : Options) :
    Reading.contents.say (s.pieces o).1 ++ ((s.pieces o).2.map Reading.contents.say).flatten =
      s.pending.map Token.content := by
  conv_rhs => rw [← pieces_append s o]
  simp [Reading.contents, List.map_flatten]

theorem content_unlined (t : Token) : t.unlined.content = t.content := rfl

theorem map_content_unlined (ts : List Token) :
    (ts.map Token.unlined).map Token.content = ts.map Token.content := by
  simp [content_unlined]

@[simp] theorem map_content_leading (ts : List Token) :
    (leading ts).map Token.content = ts.map Token.content := by
  cases ts with
  | nil => rfl
  | cons t ts =>
    rw [leading, List.map_cons, map_content_unlined]
    rfl

theorem spread_unlined (ts : List Token) : spread (ts.map Token.unlined) = spread ts := by
  simp only [spread, List.flatMap_map]
  rfl

theorem joinTokens_unlined (ts : List Token) : joinTokens (ts.map Token.unlined) = joinTokens ts := by
  cases ts with
  | nil => rfl
  | cons t ts =>
    rw [List.map_cons, joinTokens_cons, joinTokens_cons, spread_unlined]
    rfl

@[simp] theorem joinTokens_leading (ts : List Token) : joinTokens (leading ts) = joinTokens ts := by
  cases ts with
  | nil => rfl
  | cons t ts =>
    rw [leading, joinTokens_cons, joinTokens_cons, spread_unlined]
    rfl

theorem isPunct_of_content {t t' : Token} (h : t.content = t'.content) (text : List Char) :
    t.isPunct text = t'.isPunct text := by
  simp only [Token.content, Prod.mk.injEq] at h
  simp [Token.isPunct, h.1, h.2]

/-- Tokens that say the same, however they are spaced. -/
def SameContents (ts ts' : List Token) : Prop := ts'.map Token.content = ts.map Token.content

theorem sameContents_cons {t : Token} {ts ts' : List Token} (h : SameContents (t :: ts) ts') :
    ∃ u us, ts' = u :: us ∧ u.content = t.content ∧ SameContents ts us := by
  rw [SameContents, List.map_cons, List.map_eq_cons_iff] at h
  obtain ⟨u, us, rfl, hu, hus⟩ := h
  exact ⟨u, us, rfl, hu, hus⟩

theorem sameContents_nil {ts' : List Token} (h : SameContents [] ts') : ts' = [] := by
  simpa [SameContents] using h

def depthBehind (depth : Nat) (t : Token) : Nat :=
  if t.isPunct ['('] || t.isPunct ['['] || t.isPunct ['{'] then depth + 1
  else if t.isPunct [')'] || t.isPunct [']'] || t.isPunct ['}'] then depth - 1
  else depth

def breaksBetween (depth : Nat) (t dot : Token) : Bool :=
  depthBehind depth t = 0 && t.isPunct [')'] && dot.isPunct ['.']

theorem chainPieces_cons_cons (depth : Nat) (t dot : Token) (rest : List Token) :
    chainPieces depth (t :: dot :: rest) =
      if breaksBetween depth t dot then
        ([t], (chainPieces (depthBehind depth t) (dot :: rest)).1 ::
          (chainPieces (depthBehind depth t) (dot :: rest)).2)
      else
        (t :: (chainPieces (depthBehind depth t) (dot :: rest)).1,
          (chainPieces (depthBehind depth t) (dot :: rest)).2) := rfl

theorem chainPieces_head (depth : Nat) (t : Token) (rest : List Token) :
    ∃ ts, (chainPieces depth (t :: rest)).1 = t :: ts := by
  cases rest with
  | nil => exact ⟨[], rfl⟩
  | cons dot rest =>
    rw [chainPieces_cons_cons]
    split
    · exact ⟨[], rfl⟩
    · exact ⟨_, rfl⟩

theorem breaksBetween_of_content {t t' dot dot' : Token} (ht : t'.content = t.content)
    (hd : dot'.content = dot.content) (depth : Nat) :
    depthBehind depth t' = depthBehind depth t ∧
      breaksBetween depth t' dot' = breaksBetween depth t dot := by
  have hdepth : depthBehind depth t' = depthBehind depth t := by
    simp only [depthBehind, isPunct_of_content ht]
  exact ⟨hdepth, by simp only [breaksBetween, hdepth, isPunct_of_content ht, isPunct_of_content hd]⟩

/-- The pieces are broken again where they were broken, however they are spaced. -/
theorem chainPieces_of_contents {depth : Nat} {ts first' : List Token} {more' : List (List Token)}
    (hf : SameContents (chainPieces depth ts).1 first')
    (hm : List.Forall₂ SameContents (chainPieces depth ts).2 more') :
    chainPieces depth (first' ++ more'.flatten) = (first', more') := by
  -- where a piece ends is seen from two neighbours, so the induction looks at two tokens at a time
  induction ts generalizing depth first' more' with
  | nil =>
    cases hm
    rw [sameContents_nil hf]
    rfl
  | cons t ts ih =>
    cases ts with
    | nil =>
      cases hm
      obtain ⟨u, us, rfl, -, hus⟩ := sameContents_cons hf
      rw [sameContents_nil hus]
      rfl
    | cons dot rest =>
      obtain ⟨ds, hds⟩ := chainPieces_head (depthBehind depth t) dot rest
      rw [chainPieces_cons_cons] at hf hm
      split at hf
      · next hb =>
        rw [if_pos hb] at hm
        obtain ⟨u, us, rfl, hu, hus⟩ := sameContents_cons hf
        obtain rfl := sameContents_nil hus
        cases hm with
        | @cons _ piece _ pieces hfirst hmore =>
          obtain ⟨v, vs, rfl, hv, -⟩ := sameContents_cons (hds ▸ hfirst)
          obtain ⟨hdepth, hbreak⟩ := breaksBetween_of_content hu hv depth
          have ht := ih hfirst hmore
          simp only [List.cons_append] at ht
          simp only [List.flatten_cons, List.cons_append, List.nil_append]
          rw [chainPieces_cons_cons, hbreak, if_pos hb, hdepth, ht]
      · next hb =>
        rw [if_neg hb] at hm
        obtain ⟨u, us, rfl, hu, hus⟩ := sameContents_cons hf
        obtain ⟨v, vs, rfl, hv, -⟩ := sameContents_cons (hds ▸ hus)
        obtain ⟨hdepth, hbreak⟩ := breaksBetween_of_content hu hv depth
        have ht := ih hus hm
        simp only [List.cons_append] at ht ⊢
        rw [chainPieces_cons_cons, hbreak, if_neg hb, hdepth, ht]

/-- The token `u` stands for `t` with a blank in front that `t` may lack. -/
def Widens (t u : Token) : Prop := u.text = t.text ∧ (t.spaced = true → u.spaced = true)

theorem length_joinTokens_le {ts us : List Token} (h : List.Forall₂ Widens ts us) :
    (joinTokens ts).length ≤ (joinTokens us).length := by
  have hspread {ts us : List Token} (h : List.Forall₂ Widens ts us) :
      (spread ts).length ≤ (spread us).length := by
    induction h with
    | nil => exact Nat.le_refl _
    | @cons t u ts us htu h ih =>
      rw [spread_cons, spread_cons, List.length_append, List.length_append, htu.1]
      cases ht : t.spaced with
      | true =>
        rw [htu.2 ht]
        simpa using ih
      | false => cases u.spaced <;> simp <;> omega
  cases h with
  | nil => exact Nat.le_refl _
  | cons htu h =>
    rw [joinTokens_cons, joinTokens_cons, List.length_append, List.length_append, htu.1]
    exact Nat.add_le_add_left (hspread h) _

theorem widens_unlined (ts : List Token) : List.Forall₂ Widens ts (ts.map Token.unlined) := by
  rw [List.forall₂_map_right_iff]
  exact List.forall₂_same.2 fun t _ => ⟨rfl, id⟩

theorem widens_leading (ts : List Token) : List.Forall₂ Widens ts (leading ts) := by
  cases ts with
  | nil => exact .nil
  | cons t ts => exact .cons ⟨rfl, fun _ => rfl⟩ (widens_unlined ts)

theorem length_withCarry_le (carry : Option (List Char)) {a b : List Char}
    (h : a.length ≤ b.length) : (withCarry carry a).length ≤ (withCarry carry b).length := by
  cases carry with
  | none => exact h
  | some closed =>
    cases a with
    | nil =>
      simp only [withCarry, List.isEmpty_nil, if_true]
      split <;> simp
    | cons c a =>
      cases b with
      | nil => simp at h
      | cons d b =>
        simp only [List.length_cons] at h
        simp [withCarry]
        omega

/-- The tokens of a statement as they are read from its lines: a blank stands before each piece. -/
def State.respaced (s : State) (o : Options) : List Token :=
  leading (s.pieces o).1 ++ ((s.pieces o).2.map leading).flatten

theorem sameContents_leading (ts : List Token) : SameContents ts (leading ts) :=
  map_content_leading ts

theorem respaced_contents (s : State) (o : Options) : SameContents s.pending (s.respaced o) := by
  have hp := pieces_append s o
  unfold SameContents State.respaced
  conv_rhs => rw [← hp]
  simp [List.map_flatten, Function.comp_def]

theorem widens_respaced (s : State) (o : Options) :
    List.Forall₂ Widens s.pending (s.respaced o) := by
  conv in s.pending => rw [← pieces_append s o]
  refine List.rel_append (widens_leading _) ?_
  refine List.rel_flatten ?_
  rw [List.forall₂_map_right_iff]
  exact List.forall₂_same.2 fun p _ => widens_leading p

variable {o : Options} {s X : State}

/-- A statement that is read from its lines is written as the same lines again. -/
theorem statementLines_again (hp : X.pending = s.respaced o) (hc : X.carry = s.carry)
    (hi : X.indent o = s.indent o) : X.statementLines o = s.statementLines o := by
  have hpieces : X.pieces o = (leading (s.pieces o).1, (s.pieces o).2.map leading) := by
    unfold State.pieces
    by_cases hw : s.indent o + s.text.length ≤ o.printWidth
    · have hr : s.respaced o = leading s.pending := by simp [State.respaced, State.pieces, hw]
      have ht : X.text = s.text := by rw [State.text, hp, hc, hr, joinTokens_leading]; rfl
      rw [if_pos hw, if_pos (by rw [ht, hi]; exact hw), hp, hr]
      rfl
    · have hlong : ¬ X.indent o + X.text.length ≤ o.printWidth := by
        have hle := length_withCarry_le s.carry (length_joinTokens_le (widens_respaced s o))
        rw [hi, State.text, hp, hc]
        unfold State.text at hw
        omega
      have hr : s.respaced o = leading (chainPieces 0 s.pending).1 ++
          ((chainPieces 0 s.pending).2.map leading).flatten := by
        simp [State.respaced, State.pieces, hw]
      rw [if_neg hw, if_neg hlong, hp, hr]
      refine chainPieces_of_contents (sameContents_leading (chainPieces 0 s.pending).1) ?_
      rw [List.forall₂_map_right_iff]
      exact List.forall₂_same.2 fun p _ => sameContents_leading p
  rw [statementLines_eq, statementLines_eq, hpieces, hc]
  simp [Function.comp_def]

end JpaScaffold.Java.Layout
