import JpaScaffold.GeneratedFile
import JpaScaffold.Table.Reading

/-!
Generating the files of all tables of a script. A statement that fails is reported and counted, and
the run goes on; the files of a table are written once all of them are formatted.
-/
namespace JpaScaffold.Batch

open Files (Path Place Tree)

/-- Where to generate, and what. -/
structure Options where
  output : Place
  /-- The output directory is removed first. -/
  clean : Bool
  /-- The tables to generate; none stands for all. -/
  tables : List String
  deriving DecidableEq

def Options.selects (o : Options) (table : String) : Bool :=
  o.tables.isEmpty || o.tables.contains table

/-- What a run has generated: the numbers of tables, and the files below the output directory. -/
structure Summary where
  generated : Nat := 0
  failed : Nat := 0
  files : List Path := []
  deriving DecidableEq

def Summary.isSuccess (s : Summary) : Bool := s.failed = 0

/-- What becomes of a statement, before anything is written. -/
inductive Fate where
  /-- The statement is of a table that is not selected. -/
  | skipped
  /-- The statement cannot be read. -/
  | unread (error : TableError)
  /-- The files of the table cannot be made. -/
  | unmade (table : Table) (error : TableError)
  | made (table : Table) (files : List GeneratedFile)

/-- The fate of a statement that cannot be read: it is skipped if it declares a table that is not
selected. -/
def Fate.ofUnreadable (o : Options) (error : TableError) : Option String → Fate
  | some name => if o.selects name then .unread error else .skipped
  | none => .unread error

def Fate.ofTable (c : Config) (o : Options) (format : Formatter) (t : Table) : Fate :=
  if o.selects t.name then
    match GeneratedFile.ofTable c format t with
    | .ok files => .made t files
    | .error e => .unmade t e
  else .skipped

def Fate.ofStatement (c : Config) (o : Options) (format : Formatter) (ddl : String) :
    Except Ddl.ScanFault Fate := do
  match ← Table.read c ddl with
  | .ok t => return .ofTable c o format t
  | .error e => return .ofUnreadable o e (← Ddl.declaredName ddl)

/-- What a run has done so far. -/
structure State where
  summary : Summary := {}
  notices : List Notice := []
  tree : Tree

namespace State

def report (s : State) (level : Level) (message : String) : State :=
  { s with notices := s.notices ++ [⟨level, message⟩] }

def fail (s : State) : State := { s with summary.failed := s.summary.failed + 1 }

/-- Writes a file. The second part is false if it, or one before it, could not be written. -/
def writeFile (o : Options) (t : Table) (s : State × Bool) (f : GeneratedFile) : State × Bool :=
  match f.write o.output.path s.1.tree with
  | (tree, true) =>
    ({ s.1 with tree, summary.files := s.1.summary.files ++ [f.path] }.report .info
      ("Generated " ++ o.output.below f.path), s.2)
  | (tree, false) =>
    ({ s.1 with tree }.report .error
      ("Table " ++ t.name ++ ": failed to write " ++ f.typeName ++ ": IO error"), false)

/-- Writes the files of a table and counts the table. -/
def writeTable (o : Options) (t : Table) (files : List GeneratedFile) (s : State) : State :=
  match files.foldl (writeFile o t) (s, true) with
  | (s, true) => { s with summary.generated := s.summary.generated + 1 }
  | (s, false) => s.fail

def failureText (t : Table) (e : TableError) : String :=
  "Table " ++ t.name ++ ": " ++ e.message ++ if e.isDefect then " (generator defect)" else ""

/-- Carries out the fate of the statement with this number. -/
def carryOut (c : Config) (o : Options) (number : Nat) (s : State) : Fate → State
  | .skipped => s
  | .unread e => (s.report .error ("Statement #" ++ toString number ++ ": " ++ e.message)).fail
  | .unmade t e =>
    ({ s with notices := s.notices ++ GeneratedFile.notices c t }.report .error
      (failureText t e)).fail
  | .made t files =>
    writeTable o t files { s with notices := s.notices ++ GeneratedFile.notices c t }

/-- The tree without the output directory, and whether it could be removed. It is not looked for
behind a directory that is missing. A directory that is named by its dots is emptied, and stays. -/
def removeOutput (o : Options) (t : Tree) : Tree × Bool :=
  if !t.finds o.output then (t, true)
  else if !(t.get? o.output.path).any Tree.isDirectory then (t, false)
  else if o.output.isDots then (t.clear o.output.path, false)
  else (t.remove o.output.path, true)

/-- The tree with the output directory, and whether it could be prepared. -/
def prepareOutput (o : Options) (t : Tree) : Tree × Bool :=
  match if o.clean then removeOutput o t else (t, true) with
  | (t, false) => (t, false)
  | (t, true) => t.enter [] o.output.steps

end State

/-- Why a run ended early. -/
inductive Abort where
  /-- The output directory cannot be prepared. -/
  | noOutput
  /-- A statement cannot be scanned. -/
  | scan (fault : Ddl.ScanFault)
  deriving DecidableEq

/-- Works through statements of which the first one has this number. -/
def runStatements (c : Config) (o : Options) (format : Formatter) (number : Nat) (s : State) :
    List String → State × Option Abort
  | [] => (s, none)
  | ddl :: rest =>
    match Fate.ofStatement c o format ddl with
    | .error fault => (s, some (.scan fault))
    | .ok fate => runStatements c o format (number + 1) (s.carryOut c o number fate) rest

def Summary.text (s : Summary) : String :=
  toString s.generated ++ " tables generated, " ++ toString s.failed ++ " tables failed"

def runAll (c : Config) (o : Options) (format : Formatter) (s : State)
    (statements : List String) : State × Option Abort :=
  match State.prepareOutput o s.tree with
  | (tree, false) => ({ s with tree }, some .noOutput)
  | (tree, true) =>
    match runStatements c o format 1 { s with tree } statements with
    | (s, none) => (s.report .info s.summary.text, none)
    | aborted => aborted

def run (c : Config) (o : Options) (format : Formatter) (tree : Tree) (script : String) :
    State × Option Abort :=
  match Ddl.splitStatements script with
  | .error fault => ({ tree }, some (.scan fault))
  | .ok [] => runAll c o format { tree, notices := [⟨.warn, "No CREATE TABLE statement found"⟩] } []
  | .ok statements => runAll c o format { tree } statements

end JpaScaffold.Batch
