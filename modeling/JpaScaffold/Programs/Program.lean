import JpaScaffold.Text.Utf8

/-!
Programs that turn the bytes on their input into bytes on their output.
-/
namespace JpaScaffold.Programs

/-- How a program ended. -/
structure Ended where
  /-- Zero for success. -/
  status : Nat
  output : List UInt8 := []
  errors : List UInt8 := []
  /-- The bytes of the input that the program left. -/
  unread : List UInt8 := []
  /-- The time for which the program did nothing. -/
  milliseconds : Nat := 0

/-- What a program does with its arguments and its input. -/
abbrev Program := List String → List UInt8 → Ended

def line (text : String) : List UInt8 := Text.utf8 (text ++ "\n").toList

/-- A program that ends with a status and leaves its input. -/
def endWith (status : Nat) : Program := fun _ input => { status, unread := input }

def failWith (report : String) (input : List UInt8) : Ended :=
  { status := 1, errors := line report, unread := input }

/-- The report of a program that needs more arguments. -/
def missingOperand (name : String) : String :=
  name ++ ": missing operand\nTry '" ++ name ++ " --help' for more information."

end JpaScaffold.Programs
