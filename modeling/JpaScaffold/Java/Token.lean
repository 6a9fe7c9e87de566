import JpaScaffold.Text.Letters

/-!
Lexical tokens of Java source. A token keeps its exact text, whether a blank stood before it, and
the line it starts on; the blanks themselves are not kept.
-/
namespace JpaScaffold.Java

/-- The kinds of tokens. Numbers and keywords are words; every operator is punctuation. -/
inductive TokenKind where
  | word
  | literal
  | punct
  | lineComment
  | blockComment
  deriving DecidableEq

/-- A token with the layout around it that matters. -/
structure Token where
  kind : TokenKind
  text : List Char
  /-- A blank stands between this token and the one before it. -/
  spaced : Bool
  /-- The line on which the token starts, counted from one. -/
  line : Nat
  deriving DecidableEq

namespace Token

/-- What a token says, apart from where it stands. -/
def content (t : Token) : TokenKind × List Char := (t.kind, t.text)

def isPunct (t : Token) (text : List Char) : Bool := t.kind == .punct && t.text == text

def isWord (t : Token) : Bool := t.kind == .word

def isTheWord (t : Token) (text : List Char) : Bool := t.kind == .word && t.text == text

def isComment (t : Token) : Bool := t.kind == .lineComment || t.kind == .blockComment

end Token

def isWordChar (c : Char) : Bool := Text.isAlphanumeric c || c == '_' || c == '$'

/-- The tokens with one space wherever a blank stood between two of them. -/
def joinTokens : List Token → List Char
  | [] => []
  | t :: rest => t.text ++ rest.flatMap fun u => if u.spaced then ' ' :: u.text else u.text

end JpaScaffold.Java
