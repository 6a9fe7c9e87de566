import JpaScaffold.Config.Toml
import JpaScaffold.Files.Tree

/-!
The file that holds the configuration.
-/
namespace JpaScaffold.Config

open Files (Place Tree)

/-- Why a configuration is not loaded or not written. -/
inductive FileError where
  /-- The document is malformed. -/
  | malformed
  /-- There is a file already. -/
  | fileExists
  /-- The configuration has no document. -/
  | unwritable
  /-- The file system refuses. -/
  | refused
  deriving DecidableEq

def FileError.message (path : String) : FileError → String
  | malformed => "Configuration error: " ++ path ++ " is malformed"
  | fileExists => "Configuration error: " ++ path ++ " already exists, not overwriting"
  | unwritable => "Configuration error: a number is too large"
  | refused => "IO error: " ++ path

def fileName : String := ".jpagenrc.toml"

/-- The path of the file: the one that is asked for, else the one in the first home directory that
is known. -/
def filePath (asked home profile : Option String) : Option String :=
  match asked with
  | some path => some path
  | none => (home.or profile).map fun dir => (Place.mk dir []).below [fileName]

/-- What lies at a place. A file does not lie at a place that can only be a directory. -/
def lying (t : Tree) (p : Place) : Option Tree := if t.finds p then t.get? p.path else none

/-- The text of the file at a place. -/
def text? (t : Tree) (p : Place) : Option String :=
  match lying t p with
  | some (.file text) => some text
  | _ => none

/-- Loads the configuration. Without a file it is the default. -/
def load (t : Tree) (p : Place) : Except FileError Config :=
  match lying t p with
  | none => .ok .default
  | some (.directory _) => .error .refused
  | some (.file text) =>
    match parse text with
    | some c => .ok c
    | none => .error .malformed

/-- Writes the default configuration, but not over a file. -/
def writeDefault (t : Tree) (p : Place) : Except FileError Tree :=
  if (lying t p).isSome then .error .fileExists
  else
    match Config.default.print with
    | none => .error .unwritable
    | some text =>
      match if p.isDirectory || !t.leads [] p.steps.dropLast then none else t.write text p.path with
      | some t => .ok t
      | none => .error .refused

end JpaScaffold.Config
