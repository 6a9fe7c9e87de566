import JpaScaffold.CommandLine.Program

/-!
The command line program. It reads the files that the arguments name into a tree, lets the pure
program work on the tree, and stores what has changed.
-/
namespace JpaScaffold.CommandLine

open Files (Path Place Tree)

def usage : String := "Usage: jpagen [OPTIONS] [INPUT]

Generates JPA entities, repositories and value objects from CREATE TABLE statements.

Arguments:
  [INPUT]                the script with the statements [default: create.sql]

Options:
  -o, --output <OUTPUT>  the output directory [default: ./output]
      --config <CONFIG>  the configuration [env: JPAGEN_CONFIG]
      --clean            remove the output directory first
      --tables <TABLES>  the tables to generate, with commas between them
      --write-config     write the default configuration and stop
  -v, --verbose          report more
  -h, --help             print this text
  -V, --version          print the version"

def version : String := "jpagen 1.0.0"

def Refusal.text : Refusal → String
  | unknownArgument => "error: unexpected argument"
  | conflict => "error: an argument cannot be used multiple times"
  | invalidValue => "error: a value is missing or empty"
  | tooManyValues => "error: an unexpected value"
  | displayHelp => usage
  | displayVersion => version

def levelName : Level → String
  | .info => "INFO"
  | .warn => "WARN"
  | .error => "ERROR"

/-- The text that stands for the text of a file that is not read. -/
def unread : String := "\x00"

/-- What lies at a place, without the texts of the files. -/
partial def shape (e : IO.FS.DirEntry) : IO Tree := do
  if ← e.path.isDir then
    let entries ← (← e.path.readDir).toList.mapM fun e => return (e.fileName, ← shape e)
    return .directory entries
  return .file unread

def put (t : Tree) : Path → Tree → Tree
  | [], _ => t
  | name :: rest, .directory entries =>
    .directory (Tree.setEntry name (put t rest ((entries.lookup name).getD .empty)) entries)
  | name :: rest, .file _ => .directory [(name, put t rest .empty)]

/-- The tree with the shape of what lies at a place. -/
def addShape (e : IO.FS.DirEntry) (p : Place) (t : Tree) : IO Tree := do
  if ← e.path.pathExists then return put (← shape e) p.path t
  return t

/-- The tree with the file at a place and its text. -/
def addText (e : IO.FS.DirEntry) (p : Place) (t : Tree) : IO Tree := do
  if ← e.path.isDir then addShape e p t
  else if ← e.path.pathExists then return put (.file (← IO.FS.readFile e.path)) p.path t
  else return t

/-- The tree with the directories on the way along a text, seen from the directory `here`. -/
def addTrail (e : IO.FS.DirEntry) (here : Path) (t : Tree) : IO Tree := do
  let names := Path.names e.fileName
  let mut t := t
  for n in List.range names.length do
    let trail := { e with fileName := "/".intercalate (names.take n) }
    if ← trail.path.isDir then
      t := (t.createDirectories (Path.resolve here trail.fileName)).getD t
  return t

def removePath (path : String) : Tree → IO Unit
  | .file _ => IO.FS.removeFile path
  | .directory _ => IO.FS.removeDirAll path

/-- Makes what lies at a path what `new` says, where `old` lies there. -/
partial def store (path : String) (old : Option Tree) : Tree → IO Unit
  | .file text => do
    let same := match old with
      | some (.file before) => before == text
      | _ => false
    unless same do IO.FS.writeFile path text
  | .directory entries => do
    let before := match old with
      | some (.directory before) => before
      | _ => []
    unless old.any Tree.isDirectory do IO.FS.createDirAll path
    for (name, t) in before do
      if (entries.lookup name).isNone then removePath (path ++ "/" ++ name) t
    for (name, t) in entries do
      store (path ++ "/" ++ name) (before.lookup name) t

def findFiles (a : Arguments) (e : Environment) (config : Option String) : IO Tree := do
  let top ← IO.currentDir
  let place (text : String) : Place := .ofText e.here text
  let entry (p : Place) : IO.FS.DirEntry := ⟨top, p.path.text⟩
  let mut t := Tree.empty
  unless a.writeConfig do
    t ← addTrail ⟨top, a.output⟩ e.here t
    t ← addShape (entry (place a.output)) (place a.output) t
    t ← addTrail ⟨top, a.input⟩ e.here t
    t ← addText (entry (place a.input)) (place a.input) t
  if let some path := config then
    t ← addTrail ⟨top, path⟩ e.here t
    t ← addText (entry (place path)) (place path) t
  return t

def performIO (a : Arguments) (e : Environment) : IO UInt32 := do
  let before ← findFiles a e (Config.filePath a.config e.home e.profile)
  let ending := perform a e before
  store "" (some before) ending.tree
  for n in ending.notices do
    IO.println (levelName n.level ++ " " ++ n.message)
  if let some problem := ending.problem then IO.eprintln ("Error: " ++ problem)
  return .ofNat ending.status

end JpaScaffold.CommandLine

open JpaScaffold CommandLine in
def main (args : List String) : IO UInt32 := do
  let here := (← IO.currentDir).toString
  let e : Environment :=
    { here := Files.Path.resolve [] here
      home := ← IO.getEnv "HOME"
      profile := ← IO.getEnv "USERPROFILE"
      configPath := ← IO.getEnv "JPAGEN_CONFIG" }
  match Arguments.read args e.configPath with
  | .error r =>
    if refusalStatus r = success then IO.println r.text else IO.eprintln r.text
    return .ofNat (refusalStatus r)
  | .ok a => performIO a e
