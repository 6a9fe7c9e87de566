import JpaScaffold.Proofs.Ddl.Regions
import JpaScaffold.Proofs.Ddl.Offsets
import JpaScaffold.Sql.Token

/-!
# Tokens at the front of a text

The tokens of a text are those of its front and those of what is behind, if no lexeme goes on across the
cut. Words, quoted names, points, blanks and comments are cut so.
-/
namespace JpaScaffold.Sql

open Ddl (forall_ascii)
open Java (forall_blank Unclosed unclosed_cons)
open Text (isBlank isForeign)

variable {c : Char} {cs body front rest : List Char} {ts more : List Token} {t : Option Token}

theorem tokenize_cons (c : Char) (cs : List Char) :
    tokenize (c :: cs) =
      (lexeme c cs).bind fun found => (tokenize found.2).map (found.1.toList ++ ·) := by
  conv_lhs => rw [tokenize]
  split
  · next h =>
    rw [h]
    rfl
  · next h =>
    conv_rhs => rw [h]
    rfl

/-- The tokens of the front, where `rest` is behind it. -/
def Lexes (front : List Char) (ts : List Token) (rest : List Char) : Prop :=
  tokenize (front ++ rest) = (tokenize rest).map (ts ++ ·)

theorem lexes_nil (rest : List Char) : Lexes [] [] rest := by
  unfold Lexes
  cases h : tokenize rest with
  | none => simp [h]
  | some ts => simp [h]

theorem Lexes.append {cs : List Char} (h : Lexes front ts (cs ++ rest)) (hcs : Lexes cs more rest) :
    Lexes (front ++ cs) (ts ++ more) rest := by
  unfold Lexes at *
  rw [List.append_assoc, h, hcs, Option.map_map]
  congr 1
  funext ts'
  exact (List.append_assoc ..).symm

theorem lexes_of_lexeme (h : lexeme c (cs ++ rest) = some (t, rest)) : Lexes (c :: cs) t.toList rest := by
  unfold Lexes
  rw [List.cons_append, tokenize_cons, h]
  rfl

/-! ## Blanks and points -/

/-- A character that starts no quote, no comment and no prefix of a constant. -/
def Ordinary (c : Char) : Prop :=
  c ∉ ['-', '/', '\'', '"', '$', 'U', 'u', 'E', 'e', 'N', 'n', 'X', 'x']

instance : DecidablePred Ordinary := fun _ => inferInstanceAs (Decidable (¬_))

theorem lexeme_of_ordinary (h : Ordinary c) (cs : List Char) :
    lexeme c cs = some (plainLexeme c cs) := by
  simp only [Ordinary, List.mem_cons, List.not_mem_nil, or_false, not_or] at h
  unfold lexeme
  split
  · simp at h
  · simp at h
  · simp at h
  · simp at h
  · simp at h
  · simp at h
  · simp at h
  · simp [h]
  · rfl

theorem lexeme_of_next (hc : c ∉ ['-', '/', '\'', '"', '$'])
    (hnext : ∀ d ∈ cs.head?, d ≠ '\'' ∧ d ≠ '&') : lexeme c cs = some (plainLexeme c cs) := by
  unfold lexeme
  split
  · simp at hc
  · simp at hc
  · simp at hc
  · simp at hc
  · simp at hc
  · simp at hnext
  · simp at hnext
  · simp at hnext
  · rfl

theorem lexeme_blank (h : isBlank c = true) (cs : List Char) : lexeme c cs = some (none, cs) := by
  have hplain := forall_blank
    (p := fun c => decide (Ordinary c) && !startsWord c && !c.isDigit && c != '.') (by decide +kernel) h
  simp only [Bool.and_eq_true, decide_eq_true_eq, Bool.not_eq_true', bne_iff_ne, ne_eq] at hplain
  obtain ⟨⟨⟨hordinary, hword⟩, hdigit⟩, hpoint⟩ := hplain
  rw [lexeme_of_ordinary hordinary]
  simp [plainLexeme, hword, hdigit, hpoint, h]

theorem lexes_blanks (h : ∀ c ∈ front, isBlank c = true) (rest : List Char) : Lexes front [] rest := by
  induction front with
  | nil => exact lexes_nil rest
  | cons c front ih =>
    obtain ⟨hc, hfront⟩ := List.forall_mem_cons.1 h
    have hfirst : Lexes [c] [] (front ++ rest) := lexes_of_lexeme (t := none) (lexeme_blank hc _)
    exact hfirst.append (ih hfront)

theorem lexes_punctuation (h : c = ';' ∨ c = '(') (rest : List Char) :
    Lexes [c] [.operator c.toString] rest := by
  have hmark : Ordinary c ∧ startsWord c = false ∧ isBlank c = false := by
    rcases h with rfl | rfl <;> decide
  obtain ⟨hordinary, hword, hblank⟩ := hmark
  apply lexes_of_lexeme (t := some _)
  rw [List.nil_append, lexeme_of_ordinary hordinary]
  rcases h with rfl | rfl <;> simp [plainLexeme, operatorAt, isOperatorChar, hword, hblank]

theorem lexes_point (h : ∀ d ∈ rest.head?, d.isDigit = false) :
    Lexes ['.'] [.operator "."] rest := by
  apply lexes_of_lexeme (t := some _)
  have hdigit : rest.head?.any Char.isDigit = false := by
    cases rest with
    | nil => rfl
    | cons d rest => exact h d rfl
  have hword : startsWord '.' = false := by decide
  have hblank : isBlank '.' = false := by decide
  rw [List.nil_append, lexeme_of_ordinary (by decide)]
  simp [plainLexeme, operatorAt, isOperatorChar, hword, hdigit, hblank]

/-! ## Words and quoted names -/

def wordToken (cs : List Char) : Token :=
  .word (String.ofList cs) (String.ofList (cs.flatMap Text.upperForm))

/-- No word goes on with the text. -/
def EndsWord (rest : List Char) : Prop :=
  ∀ d ∈ rest.head?, continuesWord d = false ∧ d ≠ '\'' ∧ d ≠ '&'

theorem continuesWord_of_startsWord (h : startsWord c = true) : continuesWord c = true := by
  unfold startsWord at h
  unfold continuesWord
  rw [Bool.or_eq_true] at h
  rcases h with h | h <;> simp [h]

/-- A character whose lower case is a letter of ASCII is one, and its upper case is that of the letter. -/
theorem startsWord_of_isLower (h : c.toLower.isLower = true) :
    startsWord c = true ∧ Text.upperForm c = [c.toLower.toUpper] := by
  cases hc : isForeign c with
  | true =>
    rw [Ddl.toLower_of_foreign hc] at h
    have hle := Text.isForeign_iff.1 hc
    have hlast := UInt32.le_iff_toNat_le.1 (of_decide_eq_true (Bool.and_eq_true_iff.1 h).2)
    change c.toNat ≤ 122 at hlast
    omega
  | false =>
    exact forall_ascii (P := fun c => c.toLower.isLower = true →
      startsWord c = true ∧ Text.upperForm c = [c.toLower.toUpper]) (by decide) hc h

theorem lexes_word (hc : startsWord c = true) (hcs : ∀ d ∈ cs, continuesWord d = true)
    (hrest : EndsWord rest) : Lexes (c :: cs) [wordToken (c :: cs)] rest := by
  have hne {d : Char} (hd : startsWord d = false) : c ≠ d := by
    rintro rfl
    rw [hc] at hd
    cases hd
  have hquotes : c ∉ ['-', '/', '\'', '"', '$'] := by
    simp only [List.mem_cons, List.not_mem_nil, or_false, not_or]
    exact ⟨hne (by decide), hne (by decide +kernel), hne (by decide +kernel),
      hne (by decide), hne (by decide +kernel)⟩
  have hnext : ∀ d ∈ (cs ++ rest).head?, d ≠ '\'' ∧ d ≠ '&' := by
    intro d hd
    cases cs with
    | nil => exact (hrest d hd).2
    | cons d' cs =>
      obtain rfl : d' = d := by simpa using hd
      have hcont := hcs d' List.mem_cons_self
      constructor
      · rintro rfl
        revert hcont
        decide
      · rintro rfl
        revert hcont
        decide
  have htake : (cs ++ rest).takeWhile continuesWord = cs ∧
      (cs ++ rest).dropWhile continuesWord = rest := by
    rw [List.takeWhile_append_of_pos hcs, List.dropWhile_append_of_pos hcs]
    cases rest with
    | nil => simp
    | cons d rest =>
      have hd := (hrest d rfl).1
      simp [hd]
  have hlexeme : lexeme c (cs ++ rest) = some (some (wordToken (c :: cs)), rest) := by
    rw [lexeme_of_next hquotes hnext, plainLexeme, if_pos hc, wordAt, htake.1, htake.2]
    rfl
  exact lexes_of_lexeme (t := some _) hlexeme

theorem quotedTail_append {quote : Char} (h : quote ∉ body) (hrest : rest.head? ≠ some quote) :
    quotedTail quote (body ++ quote :: rest) = some (body, rest) := by
  induction body with
  | nil =>
    cases rest with
    | nil => simp [quotedTail]
    | cons d rest =>
      have hd : d ≠ quote := by simpa using hrest
      simp [quotedTail, hd]
  | cons d body ih =>
    have hd : d ≠ quote := (List.ne_of_not_mem_cons h).symm
    have hih := ih (List.not_mem_of_not_mem_cons h)
    cases body with
    | nil =>
      rw [List.cons_append, List.nil_append] at *
      rw [quotedTail, if_neg hd, hih]
      rfl
    | cons d' body =>
      rw [List.cons_append, List.cons_append] at *
      rw [quotedTail, if_neg hd, hih]
      rfl

theorem lexes_quoted (h : '"' ∉ body) (hrest : rest.head? ≠ some '"') :
    Lexes ('"' :: (body ++ ['"'])) [.quotedName (String.ofList body)] rest := by
  have hlexeme : lexeme '"' (body ++ ['"'] ++ rest) =
      some (some (.quotedName (String.ofList body)), rest) := by
    rw [List.append_assoc, List.singleton_append, lexeme, quotedTail_append h hrest]
    rfl
  exact lexes_of_lexeme (t := some _) hlexeme

/-! ## Comments -/

theorem lexes_line (h : ∀ d ∈ body, d ≠ '\n' ∧ d ≠ '\r') (rest : List Char) :
    Lexes ('-' :: '-' :: (body ++ ['\n'])) [] rest := by
  have hlexeme : lexeme '-' ('-' :: body ++ '\n' :: rest) = some (none, '\n' :: rest) := by
    rw [List.cons_append, lexeme, List.dropWhile_append_of_pos]
    · rfl
    · intro d hd
      obtain ⟨hfeed, hreturn⟩ := h d hd
      simp [hfeed, hreturn]
  have hcomment : Lexes ('-' :: '-' :: body) [] ('\n' :: rest) :=
    lexes_of_lexeme (t := none) hlexeme
  have hfeed : Lexes ['\n'] [] rest := lexes_of_lexeme (t := none) (lexeme_blank rfl rest)
  exact hcomment.append hfeed

/-- A comment ends with the first closing mark if no other one opens inside. -/
theorem commentTail_append (h : Unclosed (body ++ ['*'])) (hinner : ¬['/', '*'] <:+: body ++ ['*'])
    (rest : List Char) : commentTail 0 (body ++ '*' :: '/' :: rest) = some rest := by
  induction body with
  | nil => rfl
  | cons d body ih =>
    obtain ⟨hd, hbody⟩ := unclosed_cons.1 h
    have hinner' : ¬['/', '*'] <:+: body ++ ['*'] :=
      fun h => hinner (h.trans (List.suffix_cons d _).isInfix)
    rw [List.cons_append, commentTail, ih hbody hinner']
    · rintro more rfl hmore
      apply hinner
      cases body with
      | nil => exact List.infix_refl _
      | cons d' body =>
        cases hmore
        exact (List.prefix_append ['/', '*'] _).isInfix
    · rintro more rfl hmore
      cases body with
      | nil => cases hmore
      | cons d' body =>
        cases hmore
        exact hd rfl _ rfl

theorem lexes_block (h : Unclosed (body ++ ['*'])) (hinner : ¬['/', '*'] <:+: body ++ ['*'])
    (rest : List Char) : Lexes ('/' :: '*' :: (body ++ ['*', '/'])) [] rest := by
  have hlexeme : lexeme '/' ('*' :: (body ++ ['*', '/']) ++ rest) = some (none, rest) := by
    rw [List.cons_append, List.append_assoc, lexeme]
    change (commentTail 0 (body ++ '*' :: '/' :: rest)).map _ = _
    rw [commentTail_append h hinner]
    rfl
  exact lexes_of_lexeme (t := none) hlexeme

end JpaScaffold.Sql
