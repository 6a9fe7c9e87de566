/-!
Paths: the names that lead to a file or a directory from the top, and the texts that write them.
-/
namespace JpaScaffold.Files

/-- The names that lead to a file or a directory from the top. -/
abbrev Path := List String

namespace Path

def follow (start : Path) (name : String) : Path :=
  if name = "" ∨ name = "." then start
  else if name = ".." then start.dropLast
  else start ++ [name]

def names (text : String) : List String :=
  (text.toList.splitOnP (· == '/')).map String.ofList

/-- The path that a text names, seen from the directory `here`. A text that starts with a slash is
read from the top. -/
def resolve (here : Path) (text : String) : Path :=
  (names text).foldl follow (if text.toList.head? = some '/' then [] else here)

/-- The text of a path from the top. -/
def text (p : Path) : String := String.join (p.map ("/" ++ ·))

end Path

/-- A path as a text names it: the names on the way from the top, with those that lead nowhere and
those that lead back. -/
structure Place where
  text : String
  steps : List String
  deriving DecidableEq

namespace Place

/-- The place that a text names, seen from the directory `here`. -/
def ofText (here : Path) (text : String) : Place :=
  ⟨text, (if text.toList.head? = some '/' then [] else here) ++ Path.names text⟩

def path (p : Place) : Path := p.steps.foldl Path.follow []

/-- The text can only name a directory. -/
def isDirectory (p : Place) : Bool :=
  match (Path.names p.text).getLast? with
  | some name => name = "" ∨ name = "."
  | none => false

/-- The text names a directory by its dots, and such a directory cannot be removed. -/
def isDots (p : Place) : Bool :=
  match ((Path.names p.text).filter (· ≠ "")).getLast? with
  | some name => name = "." ∨ name = ".."
  | none => true

def below (p : Place) (rest : Path) : String :=
  let tail := "/".intercalate rest
  if p.text.toList.getLast? = some '/' then p.text ++ tail
  else if p.text = "" then tail
  else p.text ++ "/" ++ tail

end Place

end JpaScaffold.Files
