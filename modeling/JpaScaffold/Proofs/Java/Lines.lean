import JpaScaffold.Proofs.Java.Spelling

/-!
# Lines and open literals

A token keeps the number of the line on which it starts. Line feeds are counted between tokens and
in block comments, but not in literals, where a backslash may take one: behind such a literal the
count stays behind by the line feeds in it. A literal that no quote closes on its line is refused on
that line.
-/
namespace JpaScaffold.Java

open Text (isBlank)

variable {line : Nat} {kind : TokenKind} {p : Placed} {t : Token} {ps before after : List Placed}
  {quote c : Char} {text next rest body source : List Char} {ts : List Token}

/-! ## Line feeds in tokens -/

theorem ne_feed_of_isWordChar (h : isWordChar c = true) : c ≠ '\n' := by
  rintro rfl
  exact absurd (isBlank_eq_false_of_isWordChar h) (by decide)

theorem Run.feed_notMem {numeric : Bool} (h : Run numeric text next) : '\n' ∉ text := by
  induction h with
  | stop => exact List.not_mem_nil
  | char hc _ ih =>
    rw [List.mem_cons, not_or]
    exact ⟨(ne_feed_of_isWordChar hc).symm, ih⟩
  | point _ _ _ ih =>
    rw [List.mem_cons, not_or]
    exact ⟨by decide, ih⟩

/-- A line feed stands in no token but a literal or a block comment. -/
theorem Shaped.feed_notMem (h : Shaped kind text next) (hliteral : kind ≠ .literal)
    (hcomment : kind ≠ .blockComment) : '\n' ∉ text := by
  cases h with
  | lineComment hmore =>
    simp only [List.mem_cons, not_or]
    exact ⟨by decide, by decide, hmore⟩
  | blockComment => exact absurd rfl hcomment
  | literal => exact absurd rfl hliteral
  | word hc ht =>
    rw [List.mem_cons, not_or]
    exact ⟨(ne_feed_of_isWordChar hc).symm, ht.feed_notMem⟩
  | @pair c d _ hpair =>
    have hc : c ≠ '\n' := by
      rintro rfl
      exact absurd (isOperatorPair_chars hpair).1 (by decide)
    have hd : d ≠ '\n' := by
      rintro rfl
      rw [isOperatorPair_blank (by decide)] at hpair
      cases hpair
    simp [hc.symm, hd.symm]
  | @mark c _ hblank =>
    rw [List.mem_singleton]
    rintro rfl
    exact absurd hblank (by decide)

/-- The number of line feeds in the literals among the tokens. -/
def literalFeeds (ts : List Token) : Nat :=
  ((ts.filter (·.kind == .literal)).flatMap Token.text).count '\n'

@[simp] theorem literalFeeds_nil : literalFeeds [] = 0 := rfl

theorem literalFeeds_cons (t : Token) (ts : List Token) :
    literalFeeds (t :: ts) = literalFeeds [t] + literalFeeds ts := by
  simp only [literalFeeds]
  rw [← List.count_append, ← List.flatMap_append, ← List.filter_append]
  rfl

theorem literalFeeds_eq_zero_iff :
    literalFeeds ts = 0 ↔ ∀ t ∈ ts, t.kind = .literal → '\n' ∉ t.text := by
  rw [literalFeeds, List.count_eq_zero]
  constructor
  · intro h t ht hliteral hfeed
    exact h (List.mem_flatMap.2 ⟨t, List.mem_filter.2 ⟨ht, by simp [hliteral]⟩, hfeed⟩)
  · intro h hfeed
    obtain ⟨t, ht, hfeed⟩ := List.mem_flatMap.1 hfeed
    obtain ⟨ht, hliteral⟩ := List.mem_filter.1 ht
    exact h t ht (by simpa using hliteral) hfeed

theorem lineBehind_add_literalFeeds (h : Shaped t.kind t.text next) :
    t.lineBehind + literalFeeds [t] = t.line + t.text.count '\n' := by
  unfold Token.lineBehind literalFeeds
  by_cases hliteral : t.kind = .literal
  · simp [hliteral]
  · by_cases hcomment : t.kind = .blockComment
    · simp [hcomment]
    · simp [hliteral, hcomment, List.count_eq_zero.2 (h.feed_notMem hliteral hcomment)]

/-! ## Lines of tokens -/

/-- In front of the blanks before a token, the count has the line feeds that stand in no literal. -/
theorem Passes.lineAfter_add_literalFeeds (h : Passes rest line ps) :
    lineAfter line ps + literalFeeds (ps.map Placed.token) = line + (spell ps).count '\n' := by
  induction h with
  | nil => rfl
  | @cons line p ps hp hline _ ih =>
    have htoken := lineBehind_add_literalFeeds hp.shaped
    rw [List.map_cons, literalFeeds_cons, lineAfter, spell_cons, List.count_append,
      List.count_append]
    omega

theorem Passes.of_append (h : Passes rest line (before ++ p :: after)) :
    Passes (p.gap ++ (p.token.text ++ (spell after ++ rest))) line before ∧
      p.token.line = lineAfter line before + p.gap.count '\n' := by
  induction before generalizing line with
  | nil =>
    cases h with
    | cons _ hline => exact ⟨.nil line, hline⟩
  | cons q before ih =>
    cases h with
    | cons hq hline h =>
      obtain ⟨hbefore, hp⟩ := ih h
      have hspell : spell (before ++ p :: after) ++ rest =
          spell before ++ (p.gap ++ (p.token.text ++ (spell after ++ rest))) := by simp
      exact ⟨.cons (hspell ▸ hq) hline hbefore, hp⟩

/-- A token starts on the line that the line feeds in front of it make, less those in literals. -/
theorem Passes.line_add_literalFeeds (h : Passes rest line (before ++ p :: after)) :
    p.token.line + literalFeeds (before.map Placed.token) =
      line + (spell before ++ p.gap).count '\n' := by
  obtain ⟨hbefore, hp⟩ := h.of_append
  have hcount := hbefore.lineAfter_add_literalFeeds
  rw [List.count_append]
  omega

/-! ## Literals behind a source -/

theorem IsQuote.isWordChar_eq_false (h : IsQuote quote) : isWordChar quote = false := by
  rcases h with rfl | rfl <;> decide

theorem IsQuote.isOperatorPair_eq_false (h : IsQuote quote) (c : Char) :
    isOperatorPair c quote = false := by
  by_contra hpair
  obtain ⟨-, -, -, hquote⟩ := isOperatorPair_chars (Bool.eq_true_of_not_eq_false hpair)
  exact hquote (List.mem_cons_of_mem _ (List.mem_cons_of_mem _ (isQuote_iff.1 h)))

/-- A quote goes on with no run. -/
theorem Run.append_quote {numeric : Bool} (h : Run numeric text next) (hq : IsQuote quote)
    (body : List Char) : Run numeric text (next ++ quote :: body) := by
  induction h with
  | @stop next hword hpoint =>
    refine .stop (fun c r hc => ?_) (fun r hr hn => ?_)
    · cases next with
      | nil =>
        cases hc
        exact hq.isWordChar_eq_false
      | cons d next =>
        cases hc
        exact hword _ next rfl
    · cases next with
      | nil =>
        cases hr
        exact absurd hq (by unfold IsQuote; decide)
      | cons d next =>
        cases hr
        have hdigit := hpoint next rfl hn
        cases next with
        | nil => rcases hq with rfl | rfl <;> rfl
        | cons e next => exact hdigit
  | char hc _ ih => exact .char hc ih
  | point hn hd _ ih => exact .point hn hd ih

/-- A quote behind the text changes no lexeme but a line comment at its end. -/
theorem Shaped.append_quote (h : Shaped kind text next) (hq : IsQuote quote)
    (hk : kind = .lineComment → next ≠ []) (body : List Char) :
    Shaped kind text (next ++ quote :: body) := by
  cases h with
  | lineComment hmore hnext =>
    refine .lineComment hmore fun c hc => hnext c ?_
    rwa [List.head?_append_of_ne_nil _ (hk rfl)] at hc
  | blockComment _ hbody => exact .blockComment _ hbody
  | literal _ hquote hinner => exact .literal _ hquote hinner
  | word hc ht => exact .word hc (ht.append_quote hq body)
  | pair _ hpair => exact .pair _ hpair
  | mark hblank hword hquote hnext hslash =>
    refine .mark hblank hword hquote (fun d r hd => ?_) fun hc d r hd => ?_
    · cases next with
      | nil =>
        cases hd
        exact hq.isOperatorPair_eq_false _
      | cons e next =>
        cases hd
        exact hnext _ next rfl
    · cases next with
      | nil =>
        cases hd
        rcases hq with rfl | rfl <;> decide
      | cons e next =>
        cases hd
        exact hslash hc _ next rfl

theorem Passes.append_quote (h : Passes rest line ps) (hq : IsQuote quote)
    (hend : ∀ p, ps.getLast? = some p → p.token.kind = .lineComment → rest ≠ [])
    (body : List Char) : Passes (rest ++ quote :: body) line ps := by
  induction h with
  | nil line => exact .nil line
  | @cons line p ps hp hline h ih =>
    refine .cons ⟨hp.gap, hp.spaced, ?_⟩ hline (ih fun q hq => hend q ?_)
    · rw [← List.append_assoc]
      refine hp.shaped.append_quote hq (fun hk hnil => ?_) body
      obtain ⟨hspell, hrest⟩ := List.append_eq_nil_iff.1 hnil
      cases h with
      | nil => exact hend p rfl hk hrest
      | @cons _ q qs hq _ _ =>
        rw [spell_cons] at hspell
        have htext := (List.append_eq_nil_iff.1 (List.append_eq_nil_iff.1 hspell).2).1
        exact hq.shaped.text_ne_nil htext
    · rw [List.getLast?_cons, hq]
      rfl

/-- The literal that `quote` opens is closed by no quote on its line. -/
def StaysOpen (quote : Char) (body : List Char) : Prop :=
  ∃ inner stop, body = inner ++ stop ∧ Inside quote inner ∧ Breaks stop

theorem tokensFrom_open (hq : IsQuote quote) (h : StaysOpen quote body) (line : Nat)
    (spaced : Bool) : tokensFrom line spaced (quote :: body) = .error ⟨line, openFault quote⟩ := by
  have hblank : isBlank quote = false := by rcases hq with rfl | rfl <;> decide
  exact tokensFrom_fault hblank (lexeme_of_open_literal hq ((literalTail_eq_none_iff hq).2 h))

/-- Every token starts on the line that the line feeds in front of it make, less those in the
literals in front of it, and so on that very line if and only if these literals hold none. In a
literal a line feed stands only where a backslash takes it. A literal behind the source that no
quote closes on its line is refused as open, on the line on which it starts, less the line feeds in
literals. -/
theorem lines_of_tokens (h : tokenize source = .ok ts) :
    (∃ ps last, ps.map Placed.token = ts ∧ source = spell ps ++ last ∧
      (∀ c ∈ last, isBlank c = true) ∧
      ∀ before p after, ps = before ++ p :: after → p.Stands (spell after ++ last) ∧
        p.token.line + literalFeeds (before.map Placed.token) =
          1 + (spell before ++ p.gap).count '\n' ∧
        (p.token.line = 1 + (spell before ++ p.gap).count '\n' ↔
          ∀ t ∈ before.map Placed.token, t.kind = .literal → '\n' ∉ t.text)) ∧
      (∀ t ∈ ts, t.kind = .literal → ∃ quote inner, IsQuote quote ∧
        t.text = quote :: (inner ++ [quote]) ∧ Inside quote inner ∧
        ∀ front more, inner = front ++ '\n' :: more →
          ∃ taking, front = taking ++ ['\\'] ∧ Inside quote taking) ∧
      ∀ quote body, IsQuote quote → StaysOpen quote body →
        (∀ t, ts.getLast? = some t → t.kind = .lineComment → ¬ t.text <:+ source) →
        ∃ line, line + literalFeeds ts = 1 + source.count '\n' ∧
          tokenize (source ++ quote :: body) = .error ⟨line, openFault quote⟩ := by
  obtain ⟨ps, last, rfl, rfl, hlast, hps⟩ := tokenize_eq_ok_iff.1 h
  refine ⟨⟨ps, last, rfl, rfl, hlast, ?_⟩, ?_, ?_⟩
  · rintro before p after rfl
    have hline := hps.line_add_literalFeeds
    refine ⟨hps.stands, hline, ?_⟩
    rw [← literalFeeds_eq_zero_iff]
    omega
  · intro t ht hliteral
    obtain ⟨p, hp, rfl⟩ := List.mem_map.1 ht
    obtain ⟨before, after, rfl⟩ := List.append_of_mem hp
    have hshaped := hps.stands.shaped
    generalize p.token.text = text at hshaped
    rw [hliteral] at hshaped
    cases hshaped with
    | @literal quote inner _ hquote hinner =>
      refine ⟨quote, inner, hquote, rfl, hinner, ?_⟩
      rintro front more rfl
      exact hinner.feed
  · intro quote body hq hopen hend
    have hbehind : ∀ p, ps.getLast? = some p → p.token.kind = .lineComment → last ≠ [] := by
      rintro p hp hk rfl
      obtain ⟨before, rfl⟩ := List.getLast?_eq_some_iff.1 hp
      exact hend p.token (by simp) hk ⟨spell before ++ p.gap, by simp⟩
    have hcount := hps.lineAfter_add_literalFeeds
    refine ⟨lineAfter 1 ps + last.count '\n', ?_, ?_⟩
    · rw [List.count_append]
      omega
    · rw [tokenize, List.append_assoc, (hps.append_quote hq hbehind body).tokensFrom,
        tokensFrom_gap hlast, tokensFrom_open hq hopen]
      rfl

/-- A literal that goes on behind its line, and a line comment. -/
def continuedSource : List Char := "\"a\\\nb\" c\n// d\n".toList

def continuedTokens : List Token :=
  [⟨.literal, "\"a\\\nb\"".toList, false, 1⟩, ⟨.word, "c".toList, true, 1⟩,
    ⟨.lineComment, "// d".toList, true, 2⟩]

theorem lines_of_tokens_of_continued :
    tokenize continuedSource = .ok continuedTokens ∧
      (∃ ps last, ps.map Placed.token = continuedTokens ∧ continuedSource = spell ps ++ last ∧
        ∀ before p after, ps = before ++ p :: after →
          p.token.line + literalFeeds (before.map Placed.token) =
            1 + (spell before ++ p.gap).count '\n') ∧
      StaysOpen '"' "e;\n\"".toList ∧
      tokenize (continuedSource ++ '"' :: "e;\n\"".toList) = .error ⟨3, .openString⟩ := by
  have ht : tokenize continuedSource = .ok continuedTokens := by decide +kernel
  obtain ⟨⟨ps, last, hts, hsource, -, hlines⟩, -, hrefused⟩ := lines_of_tokens ht
  have hopen : StaysOpen '"' "e;\n\"".toList :=
    (literalTail_eq_none_iff (.inl rfl)).1 (by decide)
  obtain ⟨line, hline, herror⟩ := hrefused '"' _ (.inl rfl) hopen fun t hlast _ => by
    cases hlast
    decide
  obtain rfl : line = 3 := by
    have hfeeds : literalFeeds continuedTokens = 1 := by decide
    have hcount : continuedSource.count '\n' = 3 := by decide
    omega
  exact ⟨ht, ⟨ps, last, hts, hsource, fun before p after h => (hlines before p after h).2.1⟩, hopen,
    herror⟩

end JpaScaffold.Java
