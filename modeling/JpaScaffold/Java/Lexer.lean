import JpaScaffold.Java.SourceError
import JpaScaffold.Java.Token

/-!
Reading Java source as tokens. The source is a sequence of lexemes with blanks between them; each
lexeme is cut from the front of what is left. Main statements: a lexeme and what it leaves make up
the text it was cut from, and a lexeme is never empty.
-/
namespace JpaScaffold.Java

/-- The rest of a block comment up to and with the first closing mark. -/
def commentTail : List Char → Option (List Char × List Char)
  | [] => none
  | '*' :: '/' :: rest => some (['*', '/'], rest)
  | c :: rest => (commentTail rest).map fun (t, r) => (c :: t, r)

/-- The rest of a literal up to and with its closing quote. A backslash takes the next character
with it, whatever that is; a line feed that no backslash takes leaves the literal open. -/
def literalTail (quote : Char) : List Char → Option (List Char × List Char)
  | [] => none
  | '\n' :: _ => none
  | ['\\'] => none
  | '\\' :: c :: rest => (literalTail quote rest).map fun (t, r) => ('\\' :: c :: t, r)
  | c :: rest =>
    if c = quote then some ([c], rest)
    else (literalTail quote rest).map fun (t, r) => (c :: t, r)

/-- The text starts with an ASCII digit. -/
def startsWithDigit : List Char → Bool
  | [] => false
  | c :: _ => c.isDigit

/-- The rest of a word. In a number a point belongs to the word if a digit follows it. -/
def wordTail (numeric : Bool) : List Char → List Char × List Char
  | [] => ([], [])
  | c :: rest =>
    if isWordChar c || (numeric && c == '.' && startsWithDigit rest) then
      let (t, r) := wordTail numeric rest
      (c :: t, r)
    else ([], c :: rest)

def isOperatorPair (a b : Char) : Bool :=
  match a, b with
  | '=', '=' | '!', '=' | '<', '=' | '>', '=' | '-', '>' | ':', ':' | '&', '&' | '|', '|'
  | '+', '+' | '-', '-' | '+', '=' | '-', '=' | '*', '=' | '/', '=' => true
  | _, _ => false

/-- A lexeme and the text after it. -/
structure Lexeme where
  kind : TokenKind
  text : List Char
  rest : List Char
  deriving DecidableEq

/-- The operator that starts with `c`: of two characters if they make an operator. -/
def operator (c : Char) : List Char → Lexeme
  | [] => ⟨.punct, [c], []⟩
  | d :: rest => if isOperatorPair c d then ⟨.punct, [c, d], rest⟩ else ⟨.punct, [c], d :: rest⟩

def literal (quote : Char) (fault : SourceFault) (rest : List Char) : Except SourceFault Lexeme :=
  match literalTail quote rest with
  | some (t, r) => .ok ⟨.literal, quote :: t, r⟩
  | none => .error fault

/-- The lexeme that starts with the character `c`, which is not blank. -/
def lexeme (c : Char) (rest : List Char) : Except SourceFault Lexeme :=
  match c, rest with
  | '/', '/' :: rest' =>
    .ok ⟨.lineComment, '/' :: '/' :: rest'.takeWhile (· ≠ '\n'), rest'.dropWhile (· ≠ '\n')⟩
  | '/', '*' :: rest' =>
    match commentTail rest' with
    | some (t, r) => .ok ⟨.blockComment, '/' :: '*' :: t, r⟩
    | none => .error .openComment
  | '"', rest => literal '"' .openString rest
  | '\'', rest => literal '\'' .openCharacter rest
  | c, rest =>
    if isWordChar c then
      let (t, r) := wordTail c.isDigit rest
      .ok ⟨.word, c :: t, r⟩
    else .ok (operator c rest)

theorem commentTail_append {cs t r : List Char} (h : commentTail cs = some (t, r)) :
    t ++ r = cs := by
  fun_induction commentTail cs generalizing t r with
  | case1 => simp at h
  | case2 rest =>
    obtain ⟨rfl, rfl⟩ : ['*', '/'] = t ∧ rest = r := by simpa using h
    rfl
  | case3 c rest _ ih =>
    obtain ⟨⟨t', r'⟩, h', he⟩ := Option.map_eq_some_iff.1 h
    simp only [Prod.mk.injEq] at he
    simp [← he.1, ← he.2, ih h']

theorem literalTail_append {quote : Char} {cs t r : List Char}
    (h : literalTail quote cs = some (t, r)) : t ++ r = cs := by
  fun_induction literalTail quote cs generalizing t r with
  | case1 => simp at h
  | case2 => simp at h
  | case3 => simp at h
  | case4 c rest ih =>
    obtain ⟨⟨t', r'⟩, h', he⟩ := Option.map_eq_some_iff.1 h
    simp only [Prod.mk.injEq] at he
    simp [← he.1, ← he.2, ih h']
  | case5 rest =>
    obtain ⟨rfl, rfl⟩ : [quote] = t ∧ rest = r := by simpa using h
    rfl
  | case6 c rest _ _ _ _ ih =>
    obtain ⟨⟨t', r'⟩, h', he⟩ := Option.map_eq_some_iff.1 h
    simp only [Prod.mk.injEq] at he
    simp [← he.1, ← he.2, ih h']

theorem wordTail_append (numeric : Bool) (cs : List Char) :
    (wordTail numeric cs).1 ++ (wordTail numeric cs).2 = cs := by
  fun_induction wordTail numeric cs <;> simp_all

theorem operator_append (c : Char) (rest : List Char) :
    (operator c rest).text ++ (operator c rest).rest = c :: rest := by
  unfold operator
  split
  · rfl
  · split <;> rfl

theorem literal_append {quote : Char} {fault : SourceFault} {rest : List Char} {l : Lexeme}
    (h : literal quote fault rest = .ok l) : l.text ++ l.rest = quote :: rest := by
  unfold literal at h
  split at h
  · next t r ht => cases h; simp [literalTail_append ht]
  · cases h

/-- A lexeme loses nothing: its text and the rest make up the text it was cut from. -/
theorem lexeme_append {c : Char} {rest : List Char} {l : Lexeme} (h : lexeme c rest = .ok l) :
    l.text ++ l.rest = c :: rest := by
  unfold lexeme at h
  split at h
  · cases h; simp [List.takeWhile_append_dropWhile]
  · split at h
    · next t r ht => cases h; simp [commentTail_append ht]
    · cases h
  · exact literal_append h
  · exact literal_append h
  · split at h
    · cases h; simp [wordTail_append]
    · cases h; exact operator_append _ _

theorem operator_text_ne_nil (c : Char) (rest : List Char) : (operator c rest).text ≠ [] := by
  unfold operator
  split
  · simp
  · split <;> simp

/-- A lexeme is never empty. -/
theorem lexeme_text_ne_nil {c : Char} {rest : List Char} {l : Lexeme} (h : lexeme c rest = .ok l) :
    l.text ≠ [] := by
  unfold lexeme at h
  split at h
  · cases h; simp
  · split at h
    · cases h; simp
    · cases h
  · unfold literal at h; split at h <;> cases h; simp
  · unfold literal at h; split at h <;> cases h; simp
  · split at h
    · cases h; simp
    · cases h; exact operator_text_ne_nil _ _

/-- What is left after a lexeme is shorter than the text it was cut from. -/
theorem lexeme_rest_lt {c : Char} {rest : List Char} {l : Lexeme} (h : lexeme c rest = .ok l) :
    l.rest.length < (c :: rest).length := by
  rw [← lexeme_append h, List.length_append]
  have := List.length_pos_iff.2 (lexeme_text_ne_nil h)
  omega

/-- The number of the line on which the text after a lexeme starts. Line feeds count in block
comments; a literal keeps its line. -/
def Lexeme.nextLine (l : Lexeme) (line : Nat) : Nat :=
  if l.kind == .blockComment then line + l.text.count '\n' else line

/-- The tokens of a text that starts on the given line; `spaced` says whether a blank stands in
front of it. -/
def tokensFrom (line : Nat) (spaced : Bool) : List Char → Except SourceError (List Token)
  | [] => .ok []
  | c :: rest =>
    if Text.isBlank c then tokensFrom (if c = '\n' then line + 1 else line) true rest
    else
      match h : lexeme c rest with
      | .error fault => .error ⟨line, fault⟩
      | .ok l =>
        have := lexeme_rest_lt h
        (tokensFrom (l.nextLine line) false l.rest).map (⟨l.kind, l.text, spaced, line⟩ :: ·)
termination_by cs => cs.length
decreasing_by
  · exact Nat.lt_succ_self _
  · exact this

def tokenize (source : List Char) : Except SourceError (List Token) := tokensFrom 1 false source

end JpaScaffold.Java
