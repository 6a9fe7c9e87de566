import JpaScaffold.Text.Trim

/-!
The arguments of the command line. An option waits for its value, and is settled when the next
argument shows that it has one or has none.
-/
namespace JpaScaffold.CommandLine

structure Arguments where
  input : String := "create.sql"
  output : String := "./output"
  config : Option String := none
  clean : Bool := false
  tables : Option String := none
  writeConfig : Bool := false
  verbose : Nat := 0
  deriving DecidableEq

/-- Why the arguments are not accepted, or what they ask for instead of a run. -/
inductive Refusal where
  | unknownArgument
  /-- An option is given twice. -/
  | conflict
  | invalidValue
  /-- A flag has a value. -/
  | tooManyValues
  | displayHelp
  | displayVersion
  deriving DecidableEq

/-- The arguments with a value. -/
inductive Slot where
  | input
  | output
  | config
  | tables
  deriving DecidableEq

/-- The values must not be empty, as those of paths. -/
def Slot.isPath (s : Slot) : Bool := s != .tables

/-- What was read so far. -/
structure State where
  input : Option String := none
  output : Option String := none
  config : Option String := none
  tables : Option String := none
  clean : Bool := false
  writeConfig : Bool := false
  verbose : Nat := 0
  /-- The argument read last, with its value once there is one. -/
  pending : Option (Slot × Option String) := none

namespace State

def get (s : State) : Slot → Option String
  | .input => s.input
  | .output => s.output
  | .config => s.config
  | .tables => s.tables

def set (s : State) (value : String) : Slot → State
  | .input => { s with input := value }
  | .output => { s with output := value }
  | .config => { s with config := value }
  | .tables => { s with tables := value }

def accept (s : State) (slot : Slot) (value : String) : Except Refusal State :=
  if (s.get slot).isSome then .error .conflict
  else if slot.isPath && value.isEmpty then .error .invalidValue
  else .ok (s.set value slot)

/-- Settles the argument that is pending. -/
def settle (s : State) : Except Refusal State :=
  match s.pending with
  | none => .ok s
  | some (_, none) => .error .invalidValue
  | some (slot, some value) => { s with pending := none }.accept slot value

/-- Lets an option wait for its value. -/
def await (s : State) (slot : Slot) : Except Refusal State := do
  return { ← s.settle with pending := some (slot, none) }

def assign (s : State) (slot : Slot) (value : String) : Except Refusal State := do
  (← s.settle).accept slot value

def positional (s : State) (value : String) : Except Refusal State :=
  if s.input.isSome || s.pending.any (·.1 == .input) then .error .unknownArgument
  else do return { ← s.settle with pending := some (.input, some value) }

def countLimit : Nat := 255

def addVerbose (s : State) : Except Refusal State := do
  let s ← s.settle
  return { s with verbose := min (s.verbose + 1) countLimit }

def setClean (s : State) : Except Refusal State := do
  let s ← s.settle
  if s.clean then throw .conflict
  return { s with clean := true }

def setWriteConfig (s : State) : Except Refusal State := do
  let s ← s.settle
  if s.writeConfig then throw .conflict
  return { s with writeConfig := true }

def ask (s : State) (r : Refusal) : Except Refusal State := do
  let _ ← s.settle
  throw r

end State

def valueOptions : List (String × Slot) :=
  [("output", .output), ("config", .config), ("tables", .tables)]

def flags : List (String × (State → Except Refusal State)) := [
  ("clean", State.setClean), ("write-config", State.setWriteConfig), ("verbose", State.addVerbose),
  ("help", (·.ask .displayHelp)), ("version", (·.ask .displayVersion))]

/-- An argument with a long name and a value at will. -/
def State.long (s : State) (name : String) (value : Option String) : Except Refusal State :=
  match valueOptions.lookup name, flags.lookup name, value with
  | some slot, _, some value => s.assign slot value
  | some slot, _, none => s.await slot
  | none, some _, some _ => .error .tooManyValues
  | none, some flag, none => flag s
  | none, none, _ => .error .unknownArgument

/-- The short names of one argument. What follows the name of an option is its value. -/
def State.short (s : State) : List Char → Except Refusal State
  | [] => .ok s
  | ['o'] => s.await .output
  | 'o' :: '=' :: value => s.assign .output (String.ofList value)
  | 'o' :: value => s.assign .output (String.ofList value)
  | 'v' :: rest => do (← s.addVerbose).short rest
  | 'h' :: _ => s.ask .displayHelp
  | 'V' :: _ => s.ask .displayVersion
  | _ => .error .unknownArgument

def State.plain (s : State) (value : String) : Except Refusal State :=
  match s.pending with
  | some (slot, none) => .ok { s with pending := some (slot, some value) }
  | _ => s.positional value

/-- An argument in front of a double dash. -/
def State.step (s : State) (arg : String) : Except Refusal State :=
  match arg.toList with
  | '-' :: '-' :: cs =>
    let name := String.ofList (cs.takeWhile (· ≠ '='))
    match cs.dropWhile (· ≠ '=') with
    | [] => s.long name none
    | _ :: value => s.long name (some (String.ofList value))
  | '-' :: c :: cs => s.short (c :: cs)
  | _ => s.plain arg

/-- Reads the arguments. Behind a double dash no argument is the name of an option. -/
def State.read (s : State) : List String → Except Refusal State
  | [] => s.settle
  | arg :: rest =>
    if arg = "--" then do (← rest.foldlM State.positional s).settle
    else do (← s.step arg).read rest

/-- Reads the arguments behind the name of the program. `configPath` is the path of the
configuration that the environment names. -/
def Arguments.read (args : List String) (configPath : Option String) :
    Except Refusal Arguments := do
  let s ← State.read {} args
  let d : Arguments := {}
  if s.config.isNone && configPath = some "" then throw .invalidValue
  return {
    input := s.input.getD d.input
    output := s.output.getD d.output
    config := s.config.or configPath
    clean := s.clean
    tables := s.tables
    writeConfig := s.writeConfig
    verbose := s.verbose }

namespace Arguments

def tableList (a : Arguments) : List String :=
  match a.tables with
  | none => []
  | some text =>
    (((text.toList.splitOnP (· == ',')).map Text.trim).filter fun t => !t.isEmpty).map
      String.ofList

def logLevel (a : Arguments) : String :=
  match a.verbose with
  | 0 => "info"
  | 1 => "debug"
  | _ => "trace"

end Arguments

end JpaScaffold.CommandLine
