import JpaScaffold.Proofs.Java.Comment

/-!
# The shapes of lexemes

What a lexeme looks like is told without the lexer, by its text and the text behind it: a comment
goes on to the end of its line or to its first closing mark, a literal to the quote that no
backslash takes, a word as far as there are characters of words, and an operator has two characters
where it can. The lexer cuts off exactly what has the shape of a lexeme.
-/
namespace JpaScaffold.Java

open Text (isBlank)

variable {quote c d : Char} {cs t r text next : List Char} {kind : TokenKind}

/-! ## The insides of literals -/

/-- The inside of a literal: characters that neither end it nor end its line, and backslashes, each
with the character that it takes. -/
inductive Inside (quote : Char) : List Char → Prop
  | nil : Inside quote []
  | plain {c : Char} {cs : List Char} (hquote : c ≠ quote) (hslash : c ≠ '\\') (hfeed : c ≠ '\n')
      (h : Inside quote cs) : Inside quote (c :: cs)
  | taken (c : Char) {cs : List Char} (h : Inside quote cs) : Inside quote ('\\' :: c :: cs)

/-- A quote that opens a literal. -/
def IsQuote (quote : Char) : Prop := quote = '"' ∨ quote = '\''

theorem IsQuote.ne_slash (h : IsQuote quote) : quote ≠ '\\' := by
  rcases h with rfl | rfl <;> decide

theorem IsQuote.ne_feed (h : IsQuote quote) : quote ≠ '\n' := by
  rcases h with rfl | rfl <;> decide

/-- What stands behind the inside of a literal that no quote closes on its line. -/
def Breaks (stop : List Char) : Prop := stop = [] ∨ stop = ['\\'] ∨ ∃ more, stop = '\n' :: more

theorem literalTail_plain (hslash : c ≠ '\\') (hfeed : c ≠ '\n') (rest : List Char) :
    literalTail quote (c :: rest) =
      if c = quote then some ([c], rest)
      else (literalTail quote rest).map fun (t, r) => (c :: t, r) := by
  rw [literalTail]
  · exact hfeed
  · exact fun h _ => hslash h
  · exact fun _ _ h _ => hslash h

theorem Inside.literalTail_append (h : Inside quote cs) (rest : List Char) :
    literalTail quote (cs ++ rest) =
      (literalTail quote rest).map fun (t, r) => (cs ++ t, r) := by
  induction h with
  | nil => simp
  | plain hquote hslash hfeed _ ih =>
    rw [List.cons_append, literalTail_plain hslash hfeed, if_neg hquote, ih, Option.map_map]
    rfl
  | taken c _ ih =>
    rw [List.cons_append, List.cons_append, literalTail, ih, Option.map_map]
    rfl

/-- Every text begins with the inside of a literal, behind which a quote or a break stands. -/
theorem exists_inside (quote : Char) (cs : List Char) :
    ∃ inner stop, cs = inner ++ stop ∧ Inside quote inner ∧
      (Breaks stop ∨ ∃ more, stop = quote :: more) := by
  fun_induction literalTail quote cs with
  | case1 => exact ⟨[], [], rfl, .nil, .inl (.inl rfl)⟩
  | case2 more => exact ⟨[], '\n' :: more, rfl, .nil, .inl (.inr (.inr ⟨more, rfl⟩))⟩
  | case3 => exact ⟨[], ['\\'], rfl, .nil, .inl (.inr (.inl rfl))⟩
  | case4 c rest ih =>
    obtain ⟨inner, stop, rfl, hinner, hstop⟩ := ih
    exact ⟨'\\' :: c :: inner, stop, rfl, .taken c hinner, hstop⟩
  | case5 rest => exact ⟨[], quote :: rest, rfl, .nil, .inr ⟨rest, rfl⟩⟩
  | case6 c rest hfeed hend htaken hquote ih =>
    have hslash : c ≠ '\\' := by
      intro hc
      cases rest with
      | nil => exact hend hc rfl
      | cons d tail => exact htaken d tail hc rfl
    obtain ⟨inner, stop, rfl, hinner, hstop⟩ := ih
    exact ⟨c :: inner, stop, rfl, .plain hquote hslash hfeed hinner, hstop⟩

theorem literalTail_quote (h : IsQuote quote) (rest : List Char) :
    literalTail quote (quote :: rest) = some ([quote], rest) := by
  rw [literalTail_plain h.ne_slash h.ne_feed, if_pos rfl]

theorem literalTail_of_breaks (h : Breaks cs) : literalTail quote cs = none := by
  rcases h with rfl | rfl | ⟨more, rfl⟩ <;> rfl

theorem literalTail_eq_some_iff (hq : IsQuote quote) :
    literalTail quote cs = some (t, r) ↔
      ∃ inner, Inside quote inner ∧ t = inner ++ [quote] ∧ cs = t ++ r := by
  constructor
  · intro h
    obtain ⟨inner, stop, rfl, hinner, hstop⟩ := exists_inside quote cs
    rw [hinner.literalTail_append] at h
    rcases hstop with hbreak | ⟨more, rfl⟩
    · rw [literalTail_of_breaks hbreak] at h
      cases h
    · rw [literalTail_quote hq] at h
      cases h
      exact ⟨inner, hinner, rfl, by simp⟩
  · rintro ⟨inner, hinner, rfl, rfl⟩
    rw [List.append_assoc, hinner.literalTail_append, List.singleton_append, literalTail_quote hq]
    rfl

theorem literalTail_eq_none_iff (hq : IsQuote quote) :
    literalTail quote cs = none ↔ ∃ inner stop, cs = inner ++ stop ∧ Inside quote inner ∧
      Breaks stop := by
  constructor
  · intro h
    obtain ⟨inner, stop, rfl, hinner, hstop⟩ := exists_inside quote cs
    rcases hstop with hbreak | ⟨more, rfl⟩
    · exact ⟨inner, stop, rfl, hinner, hbreak⟩
    · rw [hinner.literalTail_append, literalTail_quote hq] at h
      cases h
  · rintro ⟨inner, stop, rfl, hinner, hbreak⟩
    rw [hinner.literalTail_append, literalTail_of_breaks hbreak]
    rfl

/-- What is reported for a literal that stays open. -/
def openFault (quote : Char) : SourceFault := if quote = '"' then .openString else .openCharacter

theorem lexeme_of_open_literal (hq : IsQuote quote) (h : literalTail quote cs = none) :
    lexeme quote cs = .error (openFault quote) := by
  rcases hq with rfl | rfl <;> simp [lexeme, literal, h, openFault]

/-- A line feed inside a literal is taken by a backslash that none takes. -/
theorem Inside.feed {before after : List Char} (h : Inside quote (before ++ '\n' :: after)) :
    ∃ front, before = front ++ ['\\'] ∧ Inside quote front := by
  generalize hcs : before ++ '\n' :: after = cs at h
  induction h generalizing before with
  | nil => simp at hcs
  | plain hquote hslash hfeed _ ih =>
    cases before with
    | nil => exact absurd (List.cons.inj hcs).1.symm hfeed
    | cons d before =>
      obtain ⟨rfl, hrest⟩ := List.cons.inj hcs
      obtain ⟨front, rfl, hfront⟩ := ih hrest
      exact ⟨d :: front, rfl, .plain hquote hslash hfeed hfront⟩
  | taken c _ ih =>
    cases before with
    | nil => exact absurd (List.cons.inj hcs).1 (by decide)
    | cons d before =>
      obtain ⟨rfl, hrest⟩ := List.cons.inj hcs
      cases before with
      | nil => exact ⟨[], rfl, .nil⟩
      | cons e before =>
        obtain ⟨rfl, hmore⟩ := List.cons.inj hrest
        obtain ⟨front, rfl, hfront⟩ := ih hmore
        exact ⟨'\\' :: e :: front, rfl, .taken e hfront⟩

/-! ## Words -/

/-- A run of characters of words in front of a text that does not go on with it. In a number, a
point with a digit behind it belongs to the run. -/
inductive Run (numeric : Bool) : List Char → List Char → Prop
  | stop {next : List Char} (hword : ∀ c r, next = c :: r → isWordChar c = false)
      (hpoint : ∀ r, next = '.' :: r → numeric = true → startsWithDigit r = false) :
      Run numeric [] next
  | char {c : Char} {t next : List Char} (hc : isWordChar c = true) (h : Run numeric t next) :
      Run numeric (c :: t) next
  | point {t next : List Char} (hn : numeric = true) (hd : startsWithDigit t = true)
      (h : Run numeric t next) : Run numeric ('.' :: t) next

variable {numeric : Bool}

theorem startsWithDigit_append (h : startsWithDigit t = true) (next : List Char) :
    startsWithDigit (t ++ next) = true := by
  cases t with
  | nil => cases h
  | cons c t => exact h

theorem wordTail_of_run (h : Run numeric t next) : wordTail numeric (t ++ next) = (t, next) := by
  induction h with
  | @stop next hword hpoint =>
    cases next with
    | nil => rfl
    | cons c r =>
      have hstop : (isWordChar c || numeric && c == '.' && startsWithDigit r) = false := by
        rw [hword c r rfl, Bool.false_or]
        by_contra hgoes
        simp only [Bool.not_eq_false, Bool.and_eq_true, beq_iff_eq] at hgoes
        obtain ⟨⟨hn, rfl⟩, hd⟩ := hgoes
        rw [hpoint r rfl hn] at hd
        cases hd
      rw [List.nil_append, wordTail, if_neg (by simp [hstop])]
  | char hc _ ih =>
    rw [List.cons_append, wordTail, if_pos (by simp [hc]), ih]
  | @point t next hn hd _ ih =>
    rw [List.cons_append, wordTail, if_pos (by simp [hn, startsWithDigit_append hd next]), ih]

theorem run_wordTail (numeric : Bool) (cs : List Char) :
    Run numeric (wordTail numeric cs).1 (wordTail numeric cs).2 := by
  fun_induction wordTail numeric cs with
  | case1 =>
    refine .stop (fun c r h => ?_) (fun r h _ => ?_)
    · cases h
    · cases h
  | case2 c rest hc t r he ih =>
    rw [he] at ih
    cases hw : isWordChar c with
    | true => exact .char hw ih
    | false =>
      rw [hw, Bool.false_or] at hc
      simp only [Bool.and_eq_true, beq_iff_eq] at hc
      obtain ⟨⟨hn, rfl⟩, hd⟩ := hc
      refine .point hn ?_ ih
      -- the digit behind the point is the next character of the run
      cases rest with
      | nil => cases hd
      | cons d rest =>
        have hword : isWordChar d = true := isWordChar_of_isDigit hd
        rw [wordTail, if_pos (by simp [hword])] at he
        obtain ⟨rfl, -⟩ := Prod.mk.inj he
        exact hd
  | case3 c rest hc =>
    simp only [Bool.or_eq_true, Bool.and_eq_true, beq_iff_eq, not_or, not_and,
      Bool.not_eq_true] at hc
    refine .stop (fun d r h => ?_) (fun r h hn => ?_)
    · cases h
      exact hc.1
    · cases h
      exact hc.2 ⟨hn, rfl⟩

/-! ## Closing marks -/

/-- A block comment ends at its first closing mark. -/
theorem closesComment_iff :
    ClosesComment cs ↔ ∃ body, cs = body ++ closeMark ∧ Unclosed (body ++ ['*']) := by
  constructor
  · intro h
    -- the comment ends with the closing mark, and holds none before
    have hends : ∃ body, cs = body ++ closeMark := by
      unfold ClosesComment at h
      fun_induction commentTail cs with
      | case1 => cases h
      | case2 rest =>
        obtain rfl : rest = [] := by simpa using h
        exact ⟨[], rfl⟩
      | case3 c rest _ ih =>
        obtain ⟨⟨t, r⟩, ht, he⟩ := Option.map_eq_some_iff.1 h
        simp only [Prod.mk.injEq, List.cons.injEq, true_and] at he
        obtain ⟨rfl, rfl⟩ := he
        obtain ⟨body, rfl⟩ := ih ht
        exact ⟨c :: body, rfl⟩
    obtain ⟨body, rfl⟩ := hends
    have hsplit : body ++ closeMark = (body ++ ['*']) ++ ['/'] := by simp [closeMark]
    rw [hsplit] at h
    exact ⟨body, rfl, h.unclosed_left (by simp)⟩
  · rintro ⟨body, rfl, h⟩
    induction body with
    | nil => rfl
    | cons c body ih =>
      obtain ⟨hc, hbody⟩ := unclosed_cons.1 h
      have ht := ih hbody
      unfold ClosesComment at ht ⊢
      rw [List.cons_append, commentTail, ht]
      · rfl
      · intro r hs hr
        cases body with
        | nil => cases hr
        | cons d body =>
          obtain ⟨rfl, -⟩ := List.cons.inj hr
          exact hc hs _ rfl

/-! ## Shapes -/

/-- The text has the shape of a lexeme of this kind when `next` stands behind it. -/
inductive Shaped : TokenKind → List Char → List Char → Prop
  | lineComment {more next : List Char} (hmore : '\n' ∉ more) (hnext : AtLineEnd next) :
      Shaped .lineComment ('/' :: '/' :: more) next
  | blockComment {body : List Char} (next : List Char) (hbody : Unclosed (body ++ ['*'])) :
      Shaped .blockComment ('/' :: '*' :: (body ++ closeMark)) next
  | literal {quote : Char} {inner : List Char} (next : List Char) (hquote : IsQuote quote)
      (hinner : Inside quote inner) : Shaped .literal (quote :: (inner ++ [quote])) next
  | word {c : Char} {t next : List Char} (hc : isWordChar c = true) (ht : Run c.isDigit t next) :
      Shaped .word (c :: t) next
  | pair {c d : Char} (next : List Char) (hpair : isOperatorPair c d = true) :
      Shaped .punct [c, d] next
  | mark {c : Char} {next : List Char} (hblank : isBlank c = false) (hword : isWordChar c = false)
      (hquote : ¬ IsQuote c) (hnext : ∀ d r, next = d :: r → isOperatorPair c d = false)
      (hslash : c = '/' → ∀ d r, next = d :: r → d ≠ '/' ∧ d ≠ '*') :
      Shaped .punct [c] next

theorem Shaped.text_ne_nil (h : Shaped kind text next) : text ≠ [] := by
  cases h <;> exact List.cons_ne_nil _ _

theorem isOperatorPair_chars (h : isOperatorPair c d = true) :
    isBlank c = false ∧ isWordChar c = false ∧ c ∉ ['"', '\''] ∧ d ∉ ['/', '*', '"', '\''] := by
  unfold isOperatorPair at h
  split at h <;> first | decide | cases h

theorem isQuote_iff : IsQuote quote ↔ quote ∈ ['"', '\''] := by simp [IsQuote]

theorem reads_of_shaped (h : Shaped kind text next) : Reads kind text next := by
  cases h with
  | lineComment hmore hnext => exact reads_lineComment hmore hnext
  | blockComment _ hbody => exact reads_blockComment (closesComment_iff.2 ⟨_, rfl, hbody⟩) next
  | @literal quote inner _ hquote hinner =>
    have hblank : isBlank quote = false := by rcases hquote with rfl | rfl <;> decide
    have ht : literalTail quote (inner ++ [quote] ++ next) = some (inner ++ [quote], next) :=
      (literalTail_eq_some_iff hquote).2 ⟨inner, hinner, rfl, rfl⟩
    exact ⟨quote, _, rfl, hblank, lexeme_of_cuts (.literal hquote ht)⟩
  | @word c t _ hc ht =>
    have hcuts := @Cuts.word c (t ++ next) hc
    rw [wordTail_of_run ht] at hcuts
    exact ⟨c, t, rfl, isBlank_eq_false_of_isWordChar hc, lexeme_of_cuts hcuts⟩
  | @pair c d _ hpair =>
    obtain ⟨hblank, hword, hq, hd⟩ := isOperatorPair_chars hpair
    simp only [List.mem_cons, List.not_mem_nil, or_false, not_or] at hq hd
    have hcuts := @Cuts.mark c (d :: next) hword hq.1 hq.2 fun _ e r he =>
      (List.cons.inj he).1 ▸ ⟨hd.1, hd.2.1⟩
    rw [operator, if_pos hpair] at hcuts
    exact ⟨c, [d], rfl, hblank, lexeme_of_cuts hcuts⟩
  | @mark c _ hblank hword hquote hnext hslash =>
    have hcuts := Cuts.mark hword (fun hc => hquote (.inl hc)) (fun hc => hquote (.inr hc)) hslash
    have hop : operator c next = ⟨.punct, [c], next⟩ := by
      cases next with
      | nil => rfl
      | cons d r => rw [operator, if_neg (by simp [hnext d r rfl])]
    rw [hop] at hcuts
    exact ⟨c, [], rfl, hblank, lexeme_of_cuts hcuts⟩

theorem shaped_operator (hblank : isBlank c = false) (hword : isWordChar c = false)
    (hquote : ¬ IsQuote c) (hslash : c = '/' → ∀ d r, cs = d :: r → d ≠ '/' ∧ d ≠ '*') :
    Shaped (operator c cs).kind (operator c cs).text (operator c cs).rest := by
  unfold operator
  split
  · exact .mark hblank hword hquote (fun d r h => absurd h.symm (List.cons_ne_nil d r))
      fun _ d r h => absurd h.symm (List.cons_ne_nil d r)
  · next d r =>
    split
    · next hpair => exact .pair r hpair
    · next hpair =>
      refine .mark hblank hword hquote (fun e r' he => ?_) hslash
      cases he
      exact eq_false_of_ne_true hpair

/-- The lexer cuts off a text if and only if it has the shape of a lexeme. -/
theorem reads_iff_shaped : Reads kind text next ↔ Shaped kind text next := by
  refine ⟨?_, reads_of_shaped⟩
  rintro ⟨c, rest, rfl, hblank, hx⟩
  have hcuts := cuts_of_lexeme hx
  generalize hl : (⟨kind, c :: rest, next⟩ : Lexeme) = l at hcuts
  generalize hcs : rest ++ next = cs at hcuts
  cases hcuts with
  | lineComment more =>
    cases hl
    refine .lineComment (fun hmem => ?_) (atLineEnd_dropWhile more)
    exact absurd (List.mem_takeWhile_imp hmem) (by decide)
  | blockComment ht =>
    cases hl
    have hclose := commentTail_append_right ht []
    rw [List.append_nil] at hclose
    obtain ⟨body, rfl, hbody⟩ := closesComment_iff.1 hclose
    exact .blockComment _ hbody
  | literal hq ht =>
    cases hl
    obtain ⟨inner, hinner, rfl, -⟩ := (literalTail_eq_some_iff hq).1 ht
    exact .literal _ hq hinner
  | word hc =>
    cases hl
    exact .word hc (run_wordTail _ _)
  | mark hword hq hq' hslash =>
    have hshaped := shaped_operator hblank hword (by rintro (h | h); exacts [hq h, hq' h]) hslash
    rwa [← hl] at hshaped

end JpaScaffold.Java
