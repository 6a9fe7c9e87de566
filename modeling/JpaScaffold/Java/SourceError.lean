/-!
What can be wrong with Java source that is read for layout.
-/
namespace JpaScaffold.Java

/-- The brackets that have to be closed. -/
inductive Bracket where
  | paren
  | square
  | curly
  deriving DecidableEq

def Bracket.closer : Bracket → Char
  | .paren => ')'
  | .square => ']'
  | .curly => '}'

/-- The causes for which source is refused. -/
inductive SourceFault where
  | openComment
  | openString
  | openCharacter
  /-- A closing mark without its opening one. -/
  | unbalanced (bracket : Bracket)
  /-- An opening mark without its closing one. -/
  | missing (bracket : Bracket)
  | openAnnotationArguments
  /-- Tokens that no semicolon and no block ends. -/
  | dangling (statement : List Char)
  deriving DecidableEq

def SourceFault.message : SourceFault → String
  | openComment => "unterminated block comment"
  | openString => "unterminated string literal"
  | openCharacter => "unterminated character literal"
  | unbalanced b => "unbalanced '" ++ b.closer.toString ++ "'"
  | missing b => "missing '" ++ b.closer.toString ++ "'"
  | openAnnotationArguments => "missing ')' in annotation"
  | dangling statement => "dangling statement \x60" ++ String.ofList statement ++ "\x60"

/-- A cause and the line it is reported for. -/
structure SourceError where
  line : Nat
  fault : SourceFault
  deriving DecidableEq

def SourceError.message (e : SourceError) : String :=
  "invalid Java source at line " ++ toString e.line ++ ": " ++ e.fault.message

end JpaScaffold.Java
