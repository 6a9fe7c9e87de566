import JpaScaffold.Proofs.Java.Shape

/-!
# Sources as tokens and the blanks between them

A source is its tokens with blanks in front of them and behind the last. Reading loses nothing but
these blanks, and the tokens are the ones that can stand there: each has the shape of a lexeme in
front of the text behind it.
-/
namespace JpaScaffold.Java

open Text (isBlank)

/-- A token and the blanks in front of it. -/
structure Placed where
  gap : List Char
  token : Token

/-- The text of tokens with the blanks in front of them. -/
def spell (ps : List Placed) : List Char := ps.flatMap fun p => p.gap ++ p.token.text

/-- The token has the shape of a lexeme in front of `next`, and blanks in front of it if it says
so. -/
structure Placed.Stands (p : Placed) (next : List Char) : Prop where
  gap : ∀ c ∈ p.gap, isBlank c = true
  spaced : p.token.spaced = true ↔ p.gap ≠ []
  shaped : Shaped p.token.kind p.token.text next

/-- The line on which the text behind a token starts. -/
def Token.lineBehind (t : Token) : Nat :=
  if t.kind == .blockComment then t.line + t.text.count '\n' else t.line

/-- From a line on, the tokens stand one behind the other in front of `rest`. -/
inductive Passes (rest : List Char) : Nat → List Placed → Prop
  | nil (line : Nat) : Passes rest line []
  | cons {line : Nat} {p : Placed} {ps : List Placed} (hp : p.Stands (spell ps ++ rest))
      (hline : p.token.line = line + p.gap.count '\n') (h : Passes rest p.token.lineBehind ps) :
      Passes rest line (p :: ps)

/-- The line on which the text behind the tokens starts. -/
def lineAfter (line : Nat) : List Placed → Nat
  | [] => line
  | p :: ps => lineAfter p.token.lineBehind ps

variable {line start : Nat} {spaced : Bool} {kind : TokenKind} {p : Placed}
  {ps before after : List Placed} {cs gap text next rest source : List Char} {ts : List Token}

@[simp] theorem spell_nil : spell [] = [] := rfl

@[simp] theorem spell_cons (p : Placed) (ps : List Placed) :
    spell (p :: ps) = p.gap ++ (p.token.text ++ spell ps) := by
  rw [spell, List.flatMap_cons, List.append_assoc]
  rfl

@[simp] theorem spell_append (ps qs : List Placed) : spell (ps ++ qs) = spell ps ++ spell qs :=
  List.flatMap_append

theorem Passes.stands (h : Passes rest line (before ++ p :: after)) :
    p.Stands (spell after ++ rest) := by
  induction before generalizing line with
  | nil =>
    cases h with
    | cons hp => exact hp
  | cons q before ih =>
    cases h with
    | cons _ _ h => exact ih h

/-! ## Reading -/

theorem tokensFrom_gap (hgap : ∀ c ∈ gap, isBlank c = true) (line : Nat) (spaced : Bool)
    (cs : List Char) : tokensFrom line spaced (gap ++ cs) =
      tokensFrom (line + gap.count '\n') (spaced || !gap.isEmpty) cs := by
  induction gap generalizing line spaced with
  | nil => simp
  | cons c gap ih =>
    obtain ⟨hc, hgap⟩ := List.forall_mem_cons.1 hgap
    have hline : (if c = '\n' then line + 1 else line) + gap.count '\n' =
        line + (c :: gap).count '\n' := by
      rw [List.count_cons]
      by_cases hfeed : c = '\n'
      · simp only [hfeed, if_true, beq_self_eq_true]
        omega
      · simp [hfeed]
    rw [List.cons_append, tokensFrom_blank hc, ih hgap, hline]
    simp

theorem tokensFrom_shaped (h : Shaped kind text next) (line : Nat) (spaced : Bool) :
    tokensFrom line spaced (text ++ next) =
      (tokensFrom (Token.lineBehind ⟨kind, text, spaced, line⟩) false next).map
        (⟨kind, text, spaced, line⟩ :: ·) := by
  obtain ⟨c, more, rfl, hblank, hx⟩ := reads_of_shaped h
  rw [List.cons_append, tokensFrom_lexeme hblank hx]
  rfl

theorem tokensFrom_nil (line : Nat) (spaced : Bool) : tokensFrom line spaced [] = .ok [] := by
  rw [tokensFrom]

theorem Passes.tokensFrom (h : Passes rest line ps) :
    tokensFrom line false (spell ps ++ rest) =
      (tokensFrom (lineAfter line ps) false rest).map (ps.map Placed.token ++ ·) := by
  induction h with
  | nil line =>
    rw [spell_nil, List.nil_append, lineAfter]
    cases Java.tokensFrom line false rest <;> rfl
  | @cons line p ps hp hline _ ih =>
    have hspaced : (!p.gap.isEmpty) = p.token.spaced := by
      rw [Bool.eq_iff_iff, hp.spaced]
      simp
    rw [spell_cons, List.append_assoc, List.append_assoc, tokensFrom_gap hp.gap, Bool.false_or,
      hspaced, ← hline, tokensFrom_shaped hp.shaped, ih, lineAfter]
    cases Java.tokensFrom (lineAfter p.token.lineBehind ps) false rest <;> rfl

/-- What was read stands in the text, behind the blanks that were there before. -/
theorem exists_passes (h : Lexed line spaced cs ts) (hgap : ∀ c ∈ gap, isBlank c = true)
    (hspaced : spaced = true ↔ gap ≠ []) (hline : line = start + gap.count '\n') :
    ∃ ps last, ps.map Placed.token = ts ∧ gap ++ cs = spell ps ++ last ∧
      (∀ c ∈ last, isBlank c = true) ∧ Passes last start ps := by
  induction h generalizing gap start with
  | nil => exact ⟨[], gap, rfl, List.append_nil gap, hgap, .nil start⟩
  | @blank line c cs ts _ hb _ ih =>
    have hgap' : ∀ d ∈ gap ++ [c], isBlank d = true :=
      List.forall_mem_append.2 ⟨hgap, List.forall_mem_singleton.2 hb⟩
    have hline' : (if c = '\n' then line + 1 else line) = start + (gap ++ [c]).count '\n' := by
      rw [List.count_append, List.count_singleton, hline]
      by_cases hfeed : c = '\n' <;> simp [hfeed, Nat.add_assoc]
    obtain ⟨ps, last, hts, happ, hlast, hps⟩ := ih hgap' (by simp) hline'
    exact ⟨ps, last, hts, by rw [← happ, List.append_assoc, List.singleton_append], hlast, hps⟩
  | @lexeme line c cs l ts spaced hb hx _ ih =>
    obtain ⟨ps, last, hts, happ, hlast, hps⟩ :=
      @ih (l.nextLine line) [] (List.forall_mem_nil _) (by simp) (by simp)
    rw [List.nil_append] at happ
    have hshaped := reads_iff_shaped.1 (reads_lexeme hb hx)
    rw [happ] at hshaped
    refine ⟨⟨gap, ⟨l.kind, l.text, spaced, line⟩⟩ :: ps, last, ?_, ?_, hlast, ?_⟩
    · rw [List.map_cons, hts]
    · rw [← lexeme_append hx, happ, spell_cons]
      simp
    · exact .cons ⟨hgap, hspaced, hshaped⟩ hline hps

/-- A source is read as the tokens that stand in it, with nothing but blanks behind the last. -/
theorem tokenize_eq_ok_iff : tokenize source = .ok ts ↔ ∃ ps last, ps.map Placed.token = ts ∧
    source = spell ps ++ last ∧ (∀ c ∈ last, isBlank c = true) ∧ Passes last 1 ps := by
  constructor
  · intro h
    have hgap : ∀ c ∈ ([] : List Char), isBlank c = true := List.forall_mem_nil _
    exact exists_passes (lexed_of_tokensFrom h) hgap (by simp) (by simp)
  · rintro ⟨ps, last, rfl, rfl, hlast, hps⟩
    have hread := tokensFrom_gap hlast (lineAfter 1 ps) false []
    rw [List.append_nil, tokensFrom_nil] at hread
    rw [tokenize, hps.tokensFrom, hread]
    exact congrArg Except.ok (List.append_nil _)

/-- A source is its tokens with blanks in front of them and behind the last. No token is empty, a
token has blanks in front of it if and only if it says so, and each has the shape of a lexeme in
front of the text behind it. -/
theorem tokens_spell_source (h : tokenize source = .ok ts) :
    ∃ ps last, ps.map Placed.token = ts ∧ source = spell ps ++ last ∧
      (∀ c ∈ last, isBlank c = true) ∧
      ∀ before p after, ps = before ++ p :: after →
        p.token.text ≠ [] ∧ p.Stands (spell after ++ last) := by
  obtain ⟨ps, last, hts, hsource, hlast, hps⟩ := tokenize_eq_ok_iff.1 h
  refine ⟨ps, last, hts, hsource, hlast, ?_⟩
  rintro before p after rfl
  exact ⟨hps.stands.shaped.text_ne_nil, hps.stands⟩

/-- Numbers with points, a comment in front of another one, and a literal with a quote inside. -/
def tightTokens : List Token :=
  [⟨.word, "x1".toList, true, 1⟩, ⟨.punct, "+=".toList, false, 1⟩, ⟨.word, "1.5".toList, false, 1⟩,
    ⟨.punct, ".".toList, false, 1⟩, ⟨.word, "f2".toList, false, 1⟩,
    ⟨.blockComment, "/*/\n*/".toList, true, 1⟩, ⟨.lineComment, "//**/".toList, false, 2⟩,
    ⟨.literal, "'\\''".toList, true, 3⟩]

theorem tokens_spell_source_of_tight :
    tokenize " x1+=1.5.f2 /*/\n*///**/\n'\\''\t".toList = .ok tightTokens ∧
      ∃ ps last, ps.map Placed.token = tightTokens ∧
        " x1+=1.5.f2 /*/\n*///**/\n'\\''\t".toList = spell ps ++ last ∧
        (∀ c ∈ last, isBlank c = true) ∧
        ∀ before p after, ps = before ++ p :: after →
          p.token.text ≠ [] ∧ p.Stands (spell after ++ last) := by
  have ht : tokenize " x1+=1.5.f2 /*/\n*///**/\n'\\''\t".toList = .ok tightTokens := by
    decide +kernel
  exact ⟨ht, tokens_spell_source ht⟩

end JpaScaffold.Java
