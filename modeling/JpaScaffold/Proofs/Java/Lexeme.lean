import JpaScaffold.Java.Lexer
import Mathlib.Tactic

/-!
# Lexemes and the text behind them

The lexer cuts a lexeme off by looking at the text behind it, but not far: at the next character,
and behind a number at the character after a point. A lexeme is therefore read the same way in front
of every text that binds no more tightly. Blanks bind least of all; a line comment alone reads on
through them.
-/
namespace JpaScaffold.Java

open Text (isBlank)

def blanks : List Char := [' ', '\t', '\n', '\x0b', '\x0c', '\r', '\u0085', '\u00a0', '\u1680',
  '\u2000', '\u2001', '\u2002', '\u2003', '\u2004', '\u2005', '\u2006', '\u2007', '\u2008',
  '\u2009', '\u200a', '\u2028', '\u2029', '\u202f', '\u205f', '\u3000']

theorem mem_blanks_of_isBlank {c : Char} (h : isBlank c = true) : c ∈ blanks := by
  have key : c.toNat ∈ blanks.map Char.toNat := by
    simp only [isBlank, Bool.or_eq_true, Bool.and_eq_true, beq_iff_eq, decide_eq_true_eq,
      UInt32.le_iff_toNat_le, ← UInt32.toNat_inj, ← Char.toNat_inj] at h
    have hc : c.val.toNat = c.toNat := rfl
    simp only [hc] at h
    simp [blanks] at h ⊢
    rcases h with (((((((((h | h) | h) | h) | h) | h) | h) | h) | h) | h) | h
    all_goals first | simp [h] | omega
  obtain ⟨d, hd, he⟩ := List.mem_map.1 key
  rwa [Char.toNat_inj.1 he] at hd

theorem forall_blank {p : Char → Bool} (h : blanks.all p = true) {c : Char}
    (hc : isBlank c = true) : p c = true :=
  List.all_eq_true.1 h c (mem_blanks_of_isBlank hc)

theorem isBlank_eq_false_of_isWordChar {c : Char} (h : isWordChar c = true) :
    isBlank c = false := by
  by_contra hb
  have hn := forall_blank (p := fun d => !isWordChar d) (by decide +kernel)
    (Bool.eq_true_of_not_eq_false hb)
  simp [h] at hn

theorem isWordChar_of_isDigit {c : Char} (h : c.isDigit = true) : isWordChar c = true := by
  have hlt : c.val < 128 := by
    simp only [Char.isDigit, Bool.and_eq_true, decide_eq_true_eq] at h
    have := UInt32.le_iff_toNat_le.1 h.2
    rw [UInt32.lt_iff_toNat_lt]
    exact Nat.lt_of_le_of_lt this (by decide)
  simp [isWordChar, Text.isAlphanumeric, Text.isNumeric, hlt, h]

theorem isOperatorPair_blank {c d : Char} (h : isBlank d = true) : isOperatorPair c d = false := by
  by_contra hp
  have hp := Bool.eq_true_of_not_eq_false hp
  unfold isOperatorPair at hp
  split at hp <;> first | (revert h; decide) | cases hp

/-- How the lexer decides what lexeme stands in front. -/
inductive Cuts : Char → List Char → Lexeme → Prop
  | lineComment (rest : List Char) :
      Cuts '/' ('/' :: rest)
        ⟨.lineComment, '/' :: '/' :: rest.takeWhile (· ≠ '\n'), rest.dropWhile (· ≠ '\n')⟩
  | blockComment {rest t r : List Char} (h : commentTail rest = some (t, r)) :
      Cuts '/' ('*' :: rest) ⟨.blockComment, '/' :: '*' :: t, r⟩
  | literal {quote : Char} {rest t r : List Char} (hq : quote = '"' ∨ quote = '\'')
      (h : literalTail quote rest = some (t, r)) :
      Cuts quote rest ⟨.literal, quote :: t, r⟩
  | word {c : Char} {rest : List Char} (hc : isWordChar c = true) :
      Cuts c rest ⟨.word, c :: (wordTail c.isDigit rest).1, (wordTail c.isDigit rest).2⟩
  | mark {c : Char} {rest : List Char} (hc : isWordChar c = false) (hq : c ≠ '"')
      (hq' : c ≠ '\'') (hs : c = '/' → ∀ d r, rest = d :: r → d ≠ '/' ∧ d ≠ '*') :
      Cuts c rest (operator c rest)

theorem literal_eq_ok {quote : Char} {fault : SourceFault} {rest : List Char} {l : Lexeme} :
    literal quote fault rest = .ok l ↔
      ∃ t r, literalTail quote rest = some (t, r) ∧ l = ⟨.literal, quote :: t, r⟩ := by
  unfold literal
  constructor
  · intro h
    split at h
    · next t r ht => cases h; exact ⟨t, r, ht, rfl⟩
    · cases h
  · rintro ⟨t, r, ht, rfl⟩
    rw [ht]

theorem cuts_of_lexeme {c : Char} {rest : List Char} {l : Lexeme} (h : lexeme c rest = .ok l) :
    Cuts c rest l := by
  unfold lexeme at h
  split at h
  · cases h; exact .lineComment _
  · split at h
    · next t r ht => cases h; exact .blockComment ht
    · cases h
  · obtain ⟨t, r, ht, rfl⟩ := literal_eq_ok.1 h
    exact .literal (.inl rfl) ht
  · obtain ⟨t, r, ht, rfl⟩ := literal_eq_ok.1 h
    exact .literal (.inr rfl) ht
  · next hstring hchar hline hblock =>
    split at h
    · next hc => cases h; exact .word hc
    · next hc =>
      cases h
      refine .mark (eq_false_of_ne_true hc) hstring hchar ?_
      rintro rfl d r rfl
      exact ⟨fun hd => hline r rfl (hd ▸ rfl), fun hd => hblock r rfl (hd ▸ rfl)⟩

theorem lexeme_of_cuts {c : Char} {rest : List Char} {l : Lexeme} (h : Cuts c rest l) :
    lexeme c rest = .ok l := by
  cases h with
  | lineComment r => rfl
  | blockComment h => simp [lexeme, h]
  | literal hq h =>
    rcases hq with rfl | rfl
    · exact literal_eq_ok.2 ⟨_, _, h, rfl⟩
    · exact literal_eq_ok.2 ⟨_, _, h, rfl⟩
  | word hc =>
    unfold lexeme
    split
    · exact absurd hc (by decide)
    · exact absurd hc (by decide)
    · exact absurd hc (by decide)
    · exact absurd hc (by decide)
    · rw [if_pos hc]
  | mark hc hq hq' hs =>
    unfold lexeme
    split
    · exact absurd rfl (hs rfl _ _ rfl).1
    · exact absurd rfl (hs rfl _ _ rfl).2
    · exact absurd rfl hq
    · exact absurd rfl hq'
    · rw [if_neg (by simp [hc])]

theorem lexeme_eq_ok_iff {c : Char} {rest : List Char} {l : Lexeme} :
    lexeme c rest = .ok l ↔ Cuts c rest l :=
  ⟨cuts_of_lexeme, lexeme_of_cuts⟩

/-- The text `next'` binds no more tightly to a lexeme in front of it than `next` does. -/
def Looser (next' next : List Char) : Prop :=
  ∀ c r', next' = c :: r' → isBlank c = false →
    ∃ r, next = c :: r ∧ (c = '.' → startsWithDigit r' = true → startsWithDigit r = true)

/-- Nothing stands here, or a blank. -/
def AtGap (cs : List Char) : Prop := ∀ c, cs.head? = some c → isBlank c = true

/-- Nothing stands here, or a line feed. -/
def AtLineEnd (cs : List Char) : Prop := ∀ c, cs.head? = some c → c = '\n'

theorem AtLineEnd.atGap {cs : List Char} (h : AtLineEnd cs) : AtGap cs := by
  intro c hc
  rw [h c hc]
  decide

theorem atLineEnd_nil : AtLineEnd [] := by intro c hc; cases hc

theorem atLineEnd_cons (cs : List Char) : AtLineEnd ('\n' :: cs) := by
  intro c hc
  cases hc
  rfl

theorem atGap_cons {c : Char} (h : isBlank c = true) (cs : List Char) : AtGap (c :: cs) := by
  intro d hd
  cases hd
  exact h

theorem AtGap.looser {next' next : List Char} (h : AtGap next') : Looser next' next := by
  rintro c r' rfl hc
  rw [h c rfl] at hc
  cases hc

theorem wordTail_of_looser {numeric : Bool} {text next next' : List Char}
    (hl : Looser next' next) (h : wordTail numeric (text ++ next) = (text, next)) :
    wordTail numeric (text ++ next') = (text, next') := by
  induction text with
  | nil =>
    cases next' with
    | nil => rfl
    | cons c r' =>
      simp only [List.nil_append] at h ⊢
      rw [wordTail]
      split
      · next hc =>
        -- what goes on here with the word would have gone on with it before
        exfalso
        have hb : isBlank c = false := by
          rcases Bool.or_eq_true _ _ ▸ hc with hw | hw
          · exact isBlank_eq_false_of_isWordChar hw
          · simp only [Bool.and_eq_true, beq_iff_eq] at hw
            rw [hw.1.2]
            decide
        obtain ⟨r, rfl, hr⟩ := hl c r' rfl hb
        rw [wordTail, if_pos] at h
        · simp at h
        · simp only [Bool.or_eq_true, Bool.and_eq_true, beq_iff_eq] at hc ⊢
          exact hc.imp_right fun hp => ⟨hp.1, hr hp.1.2 hp.2⟩
      · rfl
  | cons c t ih =>
    simp only [List.cons_append] at h ⊢
    rw [wordTail] at h ⊢
    split at h
    · next hc =>
      simp only [Prod.mk.injEq, List.cons.injEq, true_and] at h
      have ht := ih (Prod.ext h.1 h.2)
      have hc' : (isWordChar c || numeric && c == '.' && startsWithDigit (t ++ next')) = true := by
        cases t with
        | cons d t => exact hc
        | nil =>
          rcases Bool.or_eq_true _ _ ▸ hc with hw | hw
          · simp [hw]
          · exfalso
            -- a digit behind the point would belong to the word
            simp only [Bool.and_eq_true, List.nil_append] at hw
            cases next with
            | nil => simp [startsWithDigit] at hw
            | cons d r =>
              have hd : isWordChar d = true := isWordChar_of_isDigit hw.2
              simp [wordTail, hd] at h
      rw [if_pos hc', ht]
    · simp at h

theorem commentTail_ne_nil {cs t r : List Char} (h : commentTail cs = some (t, r)) : t ≠ [] := by
  rintro rfl
  unfold commentTail at h
  split at h
  · cases h
  · cases h
  · obtain ⟨p, -, he⟩ := Option.map_eq_some_iff.1 h
    cases he

theorem commentTail_append_right {cs t r : List Char} (h : commentTail cs = some (t, r))
    (r' : List Char) : commentTail (t ++ r') = some (t, r') := by
  fun_induction commentTail cs generalizing t r with
  | case1 => simp at h
  | case2 rest =>
    obtain ⟨rfl, rfl⟩ : ['*', '/'] = t ∧ rest = r := by simpa using h
    rfl
  | case3 c rest hne ih =>
    obtain ⟨⟨t', r''⟩, h', he⟩ := Option.map_eq_some_iff.1 h
    simp only [Prod.mk.injEq] at he
    obtain ⟨rfl, rfl⟩ := he
    have happ := commentTail_append h'
    rw [List.cons_append, commentTail, ih h']
    · rfl
    · intro rest' hc hs
      cases t' with
      | nil => exact commentTail_ne_nil h' rfl
      | cons d t' =>
        obtain ⟨rfl, -⟩ : d = '/' ∧ t' ++ r' = rest' := by simpa using hs
        exact hne _ hc happ.symm

theorem literalTail_append_right {quote : Char} {cs t r : List Char}
    (h : literalTail quote cs = some (t, r)) (r' : List Char) :
    literalTail quote (t ++ r') = some (t, r') := by
  have notSlash {c : Char} {rest : List Char} (h2 : c = '\\' → rest = [] → False)
      (h3 : ∀ d tail, c = '\\' → rest = d :: tail → False) : c ≠ '\\' := by
    intro hc
    cases rest with
    | nil => exact h2 hc rfl
    | cons d tail => exact h3 d tail hc rfl
  -- the reading is the same up to the closing quote, whatever stands behind it
  fun_induction literalTail quote cs generalizing t r with
  | case1 => simp at h
  | case2 => simp at h
  | case3 => simp at h
  | case4 c rest ih =>
    obtain ⟨⟨t', r''⟩, h', he⟩ := Option.map_eq_some_iff.1 h
    simp only [Prod.mk.injEq] at he
    obtain ⟨rfl, rfl⟩ := he
    simp [literalTail, ih h']
  | case5 rest h1 h2 h3 =>
    obtain ⟨rfl, rfl⟩ : [quote] = t ∧ rest = r := by simpa using h
    have hs := notSlash h2 h3
    rw [List.singleton_append, literalTail]
    · simp
    · exact h1
    · exact fun hc _ => hs hc
    · exact fun _ _ hc _ => hs hc
  | case6 c rest h1 h2 h3 hq ih =>
    obtain ⟨⟨t', r''⟩, h', he⟩ := Option.map_eq_some_iff.1 h
    simp only [Prod.mk.injEq] at he
    obtain ⟨rfl, rfl⟩ := he
    have hs := notSlash h2 h3
    rw [List.cons_append, literalTail, ih h', if_neg hq]
    · rfl
    · exact h1
    · exact fun hc _ => hs hc
    · exact fun _ _ hc _ => hs hc

/-- The text is cut off as a lexeme of the given kind when `next` stands behind it. -/
def Reads (kind : TokenKind) (text next : List Char) : Prop :=
  ∃ c rest, text = c :: rest ∧ isBlank c = false ∧ lexeme c (rest ++ next) = .ok ⟨kind, text, next⟩

theorem wordTail_getLast {numeric : Bool} {cs : List Char} {x : Char}
    (h : (wordTail numeric cs).1.getLast? = some x) : isWordChar x = true := by
  fun_induction wordTail numeric cs with
  | case1 => cases h
  | case2 c rest hc t r he ih =>
    rw [he] at ih
    cases t with
    | nil =>
      obtain rfl : c = x := by simpa using h
      cases hw : isWordChar c with
      | true => rfl
      | false =>
        -- a point has a digit behind it, which the word goes on with
        rw [hw, Bool.false_or, Bool.and_eq_true] at hc
        cases rest with
        | nil => cases hc.2
        | cons d rest =>
          have hd : isWordChar d = true := isWordChar_of_isDigit hc.2
          rw [wordTail, if_pos (by simp [hd])] at he
          cases he
    | cons d t => exact ih (by rwa [List.getLast?_cons_cons] at h)
  | case3 => cases h

theorem operator_of_looser {c : Char} {rest next next' : List Char} (hl : Looser next' next)
    (h : operator c (rest ++ next) = ⟨.punct, c :: rest, next⟩) :
    operator c (rest ++ next') = ⟨.punct, c :: rest, next'⟩ := by
  cases rest with
  | nil =>
    cases next' with
    | nil => rfl
    | cons d r' =>
      have hp : isOperatorPair c d = false := by
        by_cases hd : isBlank d = true
        · exact isOperatorPair_blank hd
        · obtain ⟨r, rfl, -⟩ := hl d r' rfl (eq_false_of_ne_true hd)
          by_contra hp
          simp [operator, Bool.eq_true_of_not_eq_false hp] at h
      simp [operator, hp]
  | cons d rest =>
    simp only [List.cons_append, operator] at h ⊢
    split at h
    · next hp =>
      simp only [Lexeme.mk.injEq, List.cons.injEq, true_and] at h
      simp [hp, ← h.1]
    · simp at h

theorem operator_kind (c : Char) (rest : List Char) : (operator c rest).kind = .punct := by
  unfold operator
  split
  · rfl
  · split <;> rfl

/-- A slash that opens no comment opens none in front of a text that binds no more tightly. -/
theorem slash_of_looser {c : Char} {rest next next' : List Char} (hl : Looser next' next)
    (h : c = '/' → ∀ d r, rest ++ next = d :: r → d ≠ '/' ∧ d ≠ '*') :
    c = '/' → ∀ d r, rest ++ next' = d :: r → d ≠ '/' ∧ d ≠ '*' := by
  intro hc d r hr
  cases rest with
  | cons e rest =>
    obtain ⟨rfl, -⟩ : e = d ∧ rest ++ next' = r := by simpa using hr
    exact h hc e _ rfl
  | nil =>
    by_cases hd : isBlank d = true
    · constructor
      · rintro rfl
        exact absurd hd (by decide)
      · rintro rfl
        exact absurd hd (by decide)
    · obtain ⟨r₀, rfl, -⟩ := hl d r hr (eq_false_of_ne_true hd)
      exact h hc d r₀ rfl

/-- A lexeme is read again in front of a text that binds no more tightly. -/
theorem Reads.of_looser {kind : TokenKind} {text next next' : List Char}
    (h : Reads kind text next) (hk : kind ≠ .lineComment) (hl : Looser next' next) :
    Reads kind text next' := by
  obtain ⟨c, rest, rfl, hb, hx⟩ := h
  refine ⟨c, rest, rfl, hb, ?_⟩
  rw [lexeme_eq_ok_iff] at hx ⊢
  generalize hcs : rest ++ next = cs at hx
  generalize hlx : (⟨kind, c :: rest, next⟩ : Lexeme) = l at hx
  cases hx with
  | lineComment =>
    cases hlx
    exact absurd rfl hk
  | blockComment ht =>
    cases hlx
    exact .blockComment (commentTail_append_right ht next')
  | literal hq ht =>
    cases hlx
    exact .literal hq (literalTail_append_right ht next')
  | word hc =>
    simp only [Lexeme.mk.injEq, List.cons.injEq, true_and] at hlx
    obtain ⟨rfl, h1, h2⟩ := hlx
    have ht := wordTail_of_looser hl (Prod.ext_iff.2 ⟨by rw [hcs, ← h1], by rw [hcs, ← h2]⟩)
    have hw := @Cuts.word c (rest ++ next') hc
    rwa [ht] at hw
  | mark hc hq hq' hs =>
    have hkind : kind = .punct := (congrArg Lexeme.kind hlx).trans (operator_kind c cs)
    subst hkind
    have ht : operator c (rest ++ next') = ⟨.punct, c :: rest, next'⟩ :=
      operator_of_looser hl (by rw [hcs, hlx])
    have hm := @Cuts.mark c (rest ++ next') hc hq hq' (slash_of_looser hl (hcs ▸ hs))
    rwa [ht] at hm

/-- The marks that stand for themselves, whatever comes next. -/
def marks : List Char := ['{', '}', '(', ')', '[', ']', ';', ',', '.', '@', '?']

theorem isOperatorPair_mark {c d : Char} (h : c ∈ marks) : isOperatorPair c d = false := by
  by_contra hp
  have hp := Bool.eq_true_of_not_eq_false hp
  unfold isOperatorPair at hp
  split at hp <;> first | (revert h; decide) | cases hp

theorem reads_mark {c : Char} (h : c ∈ marks) (next : List Char) : Reads .punct [c] next := by
  have hall : marks.all fun d => decide (isBlank d = false ∧ isWordChar d = false ∧ d ≠ '"' ∧
      d ≠ '\'' ∧ d ≠ '/') := by decide +kernel
  obtain ⟨hb, hw, hq, hq', hs⟩ := of_decide_eq_true (List.all_eq_true.1 hall c h)
  have hop : operator c next = ⟨.punct, [c], next⟩ := by
    cases next with
    | nil => rfl
    | cons d r => simp [operator, isOperatorPair_mark h]
  refine ⟨c, [], rfl, hb, ?_⟩
  rw [List.nil_append, ← hop]
  exact lexeme_of_cuts (.mark hw hq hq' fun hc => absurd hc hs)

theorem Reads.getLast_word {text next : List Char} (h : Reads .word text next) :
    text.getLast?.any isWordChar = true := by
  obtain ⟨c, rest, rfl, -, hx⟩ := h
  have hcuts := cuts_of_lexeme hx
  generalize hl : (⟨.word, c :: rest, next⟩ : Lexeme) = l at hcuts
  generalize rest ++ next = cs at hcuts
  cases hcuts with
  | lineComment => cases hl
  | blockComment => cases hl
  | literal => cases hl
  | word hc =>
    cases hl
    cases hlast : (wordTail c.isDigit cs).1.getLast? with
    | none => simp [List.getLast?_cons, hlast, hc]
    | some x => simp [List.getLast?_cons, hlast, wordTail_getLast hlast]
  | mark =>
    have hkind := congrArg Lexeme.kind hl
    rw [operator_kind] at hkind
    cases hkind

end JpaScaffold.Java
