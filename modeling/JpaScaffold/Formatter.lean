import JpaScaffold.Config
import JpaScaffold.Java.Layout
import JpaScaffold.Programs.Shell
import JpaScaffold.TableError
import JpaScaffold.Text.Trim

/-!
Formatters: the layout of the library, or a program that reads source and writes formatted source.
-/
namespace JpaScaffold

/-- What makes formatted source of source, or tells why it cannot. -/
abbrev Formatter := String → Except FormatError String

namespace Formatter

def builtin (o : FormatOptions) : Formatter := fun source =>
  match Java.Layout.format ⟨o.tabWidth, o.printWidth⟩ source.toList with
  | .ok cs => .ok (String.ofList cs)
  | .error e => .error (.source e)

/-- The formatted source that a program which has ended leaves. `command` names the program in
reports. -/
def outputOf (command : String) (e : Programs.Ended) : Except FormatError String :=
  if e.status = 0 then
    match Text.decodeUtf8 e.output with
    | .ok cs => .ok (String.ofList cs)
    | .error fault => .error (.failed command fault.message)
  else
    .error (.failed command ("exited with exit status: " ++ toString e.status ++ ": " ++
      String.ofList (Text.trim (Text.decodeLossy e.errors))))

/-- A program with its arguments. It fails when it has not ended after the given seconds. -/
def program (name : String) (args : List String) (seconds : Nat) : Formatter := fun source =>
  let command := " ".intercalate (name :: args)
  match Programs.find? name with
  | none => .error (.failed command "No such file or directory (os error 2)")
  | some run =>
    let e := run args (Text.utf8 source.toList)
    if seconds * 1000 ≤ e.milliseconds then .error (.timeout command seconds)
    else outputOf command e

/-- The program of a command, which has to name one. -/
def ofCommand (command : List String) (seconds : Nat) : Except FormatError Formatter :=
  match command with
  | [] => .error (.failed "" "formatter command is empty")
  | name :: args => .ok (program name args seconds)

def ofOptions (o : FormatOptions) : Except FormatError Formatter :=
  match o.command with
  | some command => ofCommand command o.timeoutSecs
  | none => .ok (builtin o)

end Formatter

end JpaScaffold
