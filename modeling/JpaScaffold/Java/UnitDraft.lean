import JpaScaffold.Java.TypeDraft

/-!
Drafts of compilation units, and the set of imports of a unit: every import once, in the order of
first mention.
-/
namespace JpaScaffold.Java

/-- Names to import, in the order of first mention. -/
structure ImportSet where
  names : List String := []

namespace ImportSet

/-- The set with one name more, without the blanks around it. A name that is there already changes
nothing. -/
def add (s : ImportSet) (name : String) : Except BuildError ImportSet :=
  let name := Text.mapChars Text.trim name
  if s.names.contains name then .ok s
  else (qualifiedName .importName name).map fun name => ⟨s.names ++ [name]⟩

def addAll (s : ImportSet) (names : List String) : Except BuildError ImportSet := names.foldlM add s

end ImportSet

structure UnitDraft where
  package : Option String := none
  imports : ImportSet := {}
  doc : Option (List String) := none
  comments : List Comment := []
  classDecl : Option ClassDecl := none
  interfaceDecl : Option InterfaceDecl := none

/-- A part that is added to a unit. -/
inductive UnitPart where
  | package (name : String)
  | importName (name : String)
  | importNames (names : List String)
  | importSet (imports : ImportSet)
  | doc (lines : List String)
  | comment (comment : Comment)
  | classDecl (decl : ClassDecl)
  | interfaceDecl (decl : InterfaceDecl)

namespace UnitDraft

/-- The draft with one part more. The package and the doc comment are given once; a class or an
interface replaces the one before it. -/
def add (d : UnitDraft) : UnitPart → Except BuildError UnitDraft
  | .package name =>
    match d.package with
    | some _ => .error .secondPackage
    | none => (qualifiedName .packageName name).map fun name => { d with package := some name }
  | .importName name => (d.imports.add name).map fun imports => { d with imports := imports }
  | .importNames names => (d.imports.addAll names).map fun imports => { d with imports := imports }
  | .importSet s => (d.imports.addAll s.names).map fun imports => { d with imports := imports }
  | .doc lines =>
    match d.doc with
    | some _ => .error .secondDoc
    | none => .ok { d with doc := some lines }
  | .comment c => .ok { d with comments := d.comments ++ [c] }
  | .classDecl c => .ok { d with classDecl := some c }
  | .interfaceDecl i => .ok { d with interfaceDecl := some i }

def addAll (d : UnitDraft) (parts : List UnitPart) : Except BuildError UnitDraft :=
  parts.foldlM add d

/-- The type of a draft: a class or an interface, not both. -/
def typeDecl (d : UnitDraft) : Except BuildError TypeDecl :=
  match d.classDecl, d.interfaceDecl with
  | some c, none => .ok (.classDecl c)
  | none, some i => .ok (.interfaceDecl i)
  | none, none => .error .noType
  | some c, some i => .error (.twoTypes c.name i.name)

/-- The unit of a draft. Its package is checked first, then its type. -/
def build (d : UnitDraft) : Except BuildError CompilationUnit :=
  match d.package with
  | none => .error .noPackage
  | some package =>
    d.typeDecl.map fun decl => ⟨package, d.imports.names, d.doc, decl, d.comments⟩

end UnitDraft

end JpaScaffold.Java
