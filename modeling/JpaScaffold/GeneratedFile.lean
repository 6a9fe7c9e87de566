import JpaScaffold.Files.Tree
import JpaScaffold.Formatter
import JpaScaffold.Java.Render
import JpaScaffold.Units.TableUnits

/-!
The source files of a table. The units of a table may be formatted in any order; each file takes
the text of its own unit.
-/
namespace JpaScaffold

open Java (CompilationUnit)

/-- A source file with its type and package. -/
structure GeneratedFile where
  package : String
  typeName : String
  contents : String
  deriving DecidableEq

namespace GeneratedFile

def packagePath (package : String) : Files.Path :=
  ((package.toList.splitOnP (· == '.')).filter fun segment => !segment.isEmpty).map String.ofList

/-- The path of the file below the output directory. -/
def path (f : GeneratedFile) : Files.Path := packagePath f.package ++ [f.typeName ++ ".java"]

/-- The file of a unit, still without its text. -/
def ofUnit (u : CompilationUnit) : GeneratedFile := ⟨u.package, u.typeName, ""⟩

/-- The files with the formatted text of the unit at place `i`. -/
def fill (format : Formatter) (units : List CompilationUnit) (files : List GeneratedFile)
    (i : Nat) : Except FormatError (List GeneratedFile) :=
  match units[i]? with
  | none => .ok files
  | some u => (format u.text).map fun text => files.modify i fun f => { f with contents := text }

/-- The files of some units, formatted in the order in which `order` lists their places. The first
failure in that order is the failure of all. -/
def ofUnits (format : Formatter) (units : List CompilationUnit) (order : List Nat) :
    Except FormatError (List GeneratedFile) :=
  order.foldlM (fill format units) (units.map ofUnit)

/-- The files of a table, formatted in order. -/
def ofTable (c : Config) (format : Formatter) (t : Table) :
    Except TableError (List GeneratedFile) := do
  let units := (← Units.units (.ofTable c t) (.ofConfig c)).toList
  (ofUnits format units (List.range units.length)).mapError .format

/-- The reports on a table while its files are made. -/
def notices (c : Config) (t : Table) : List Notice :=
  Entity.typeNotices c t ++ Units.unitNotices (.ofTable c t) (.ofConfig c)

/-- The tree with the file below the directory `root`, whose missing directories are created, and
whether the file could be written. -/
def write (root : Files.Path) (f : GeneratedFile) (t : Files.Tree) : Files.Tree × Bool :=
  match t.enter root f.path.dropLast with
  | (t, false) => (t, false)
  | (t, true) =>
    match t.write f.contents (root ++ f.path) with
    | none => (t, false)
    | some t => (t, true)

end GeneratedFile

end JpaScaffold
