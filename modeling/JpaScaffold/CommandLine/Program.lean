import JpaScaffold.Batch
import JpaScaffold.CommandLine.Arguments
import JpaScaffold.Config.File

/-!
What the program does, as a function of its arguments, its environment and the files it finds.
-/
namespace JpaScaffold.CommandLine

open Files (Path Place Tree)

/-- What the program is told besides its arguments. -/
structure Environment where
  /-- The directory in which the program runs. -/
  here : Path
  home : Option String := none
  profile : Option String := none
  /-- The path of the configuration. -/
  configPath : Option String := none

/-- How the program ends: its exit status, its reports, what kept it from its work, and the files it
leaves. -/
structure Ending where
  status : Nat
  notices : List Notice := []
  problem : Option String := none
  tree : Tree

/-- The exit statuses. -/
def success : Nat := 0

def failure : Nat := 1

def misuse : Nat := 2

def abort : Nat := 101

/-- The end of a program whose arguments are not accepted. -/
def refusalStatus : Refusal → Nat
  | .displayHelp | .displayVersion => success
  | _ => misuse

def Ending.ofProblem (t : Tree) (problem : String) : Ending :=
  { status := failure, problem, tree := t }

def writeConfig (t : Tree) : Option Place → Ending
  | none => .ofProblem t "Cannot determine a config path; pass --config"
  | some place =>
    match Config.writeDefault t place with
    | .error e => .ofProblem t (e.message place.text)
    | .ok tree =>
      { status := success, tree
        notices := [⟨.info, "Default config written to " ++ place.text⟩] }

def Ending.ofRun (s : Batch.State) (aborted : Option Batch.Abort) : Ending :=
  let ended (status : Nat) (problem : Option String) : Ending :=
    { status, notices := s.notices, problem, tree := s.tree }
  match aborted with
  | some (.scan _) => ended abort "The script cannot be scanned"
  | some .noOutput => ended failure "Failed to prepare the output directory"
  | none => ended (if s.summary.isSuccess then success else failure) none

def generate (a : Arguments) (here : Path) (c : Config) (t : Tree) : Ending :=
  match Config.text? t (.ofText here a.input) with
  | none => .ofProblem t ("Failed to read " ++ a.input)
  | some script =>
    match Formatter.ofOptions c.format with
    | .error e => .ofProblem t e.message
    | .ok format =>
      let r := Batch.run c ⟨.ofText here a.output, a.clean, a.tableList⟩ format t script
      .ofRun r.1 r.2

/-- What the program does with arguments that are accepted. -/
def perform (a : Arguments) (e : Environment) (t : Tree) : Ending :=
  let place := (Config.filePath a.config e.home e.profile).map (Place.ofText e.here)
  if a.writeConfig then writeConfig t place
  else
    match place with
    | none => generate a e.here .default t
    | some place =>
      match Config.load t place with
      | .error error => .ofProblem t (error.message place.text)
      | .ok c => generate a e.here c t

def run (args : List String) (e : Environment) (t : Tree) : Ending :=
  match Arguments.read args e.configPath with
  | .error r => { status := refusalStatus r, tree := t }
  | .ok a => perform a e t

end JpaScaffold.CommandLine
