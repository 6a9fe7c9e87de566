import JpaScaffold.Text.CaseContext
import JpaScaffold.Text.Count
import JpaScaffold.Text.Trim

/-!
The name of a column's type and its numeric arguments, read from the text of the type.
-/
namespace JpaScaffold.Sql

/-- A type by its canonical name, in lower case with single spaces, and its arguments. -/
structure TypeName where
  name : String
  args : List Nat
  deriving DecidableEq

namespace TypeName

/-- The short name of the types that have one. -/
def canonical (name : String) : String :=
  if name = "timestamp with time zone" then "timestamptz"
  else if name = "timestamp without time zone" then "timestamp"
  else if name = "time with time zone" then "timetz"
  else if name = "time without time zone" then "time"
  else name

/-- The words of a text with one space between them. -/
def spaced (cs : List Char) : String := String.ofList (Text.joinWith [' '] (Text.words cs))

/-- The number that an argument starts with, if its first word is a number. -/
def argument (cs : List Char) : Option Nat := (Text.words cs).head?.bind Text.readCount

/-- The text before the first opening parenthesis, the text between it and the next closing one, and
the text behind; `none` if a closing parenthesis comes first or one of them is missing. -/
def parts (cs : List Char) : Option (List Char × List Char × List Char) :=
  let before := cs.takeWhile (· ≠ '(')
  if before.contains ')' then none
  else
    match cs.dropWhile (· ≠ '(') with
    | [] => none
    | _ :: rest =>
      match rest.dropWhile (· ≠ ')') with
      | [] => none
      | _ :: after => some (before, rest.takeWhile (· ≠ ')'), after)

def parse (text : String) : TypeName :=
  let written := Text.lower (Text.trim text.toList)
  match parts written with
  | some (before, inside, after) =>
    ⟨canonical (spaced (before ++ ' ' :: after)),
      (inside.splitOnP (· == ',')).filterMap argument⟩
  | none => ⟨canonical (spaced written), []⟩

/-- The declared length, of character types of variable length only. -/
def length (t : TypeName) : Option Nat :=
  if t.name = "character varying" ∨ t.name = "varchar" then t.args[0]? else none

/-- The declared precision, of `numeric` only. -/
def precision (t : TypeName) : Option Nat := if t.name = "numeric" then t.args[0]? else none

/-- The declared scale, of `numeric` only. -/
def scale (t : TypeName) : Option Nat := if t.name = "numeric" then t.args[1]? else none

def isJson (t : TypeName) : Bool := t.name = "json" ∨ t.name = "jsonb"

end TypeName

end JpaScaffold.Sql
