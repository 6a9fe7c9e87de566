import JpaScaffold.Java.UnitDraft
import JpaScaffold.Units.Policy

/-!
The fields and annotations that the generated types share.
-/
namespace JpaScaffold.Units

open Java (BuildError FieldDecl FieldDraft ImportSet Marker TypeRef)

/-- A type without arguments and dimensions. -/
def simpleType (name : String) : TypeRef := .mk name [] 0

/-- An annotation without attributes. -/
def bareMarker (name : String) : Marker := ⟨name, []⟩

/-- An annotation whose only attribute is its value. -/
def classMarker (name : String) (type : TypeRef) : Marker := ⟨name, [⟨"value", .classOf type⟩]⟩

/-- The field that numbers the serial form of a class. -/
def serialVersion : FieldDecl where
  name := "serialVersionUID"
  modifiers := [.privateAccess, .staticMember, .finalMember]
  markers := []
  type := simpleType "long"
  initialValue := some "1L"

def numberAttribute (key : String) (value : Option Nat) : List Java.Attribute :=
  (value.map fun n => ⟨key, .verbatim (toString n)⟩).toList

/-- The annotation that names the column of a field. -/
def columnMarker (c : Column) : Marker where
  name := "Column"
  attributes :=
    [⟨"name", .string c.name⟩] ++ numberAttribute "length" c.length ++
      numberAttribute "precision" c.precision ++ numberAttribute "scale" c.scale ++
      [⟨"nullable", .verbatim (if c.nullable then "true" else "false")⟩]

/-- The initial value of a field. Key fields have none. -/
def initialValue (f : EntityField) : Option String :=
  if f.column.isPrimaryKey then none else f.initialValue

def initialValueImports (f : EntityField) : List String :=
  if (initialValue f).isSome then f.initialValueImport.toList else []

/-- The identifier of the field is generated. -/
def isGenerated (p : Policy) (f : EntityField) : Bool :=
  f.isId && p.generateIdentity && f.type == "Long"

def entityMarkers (p : Policy) (f : EntityField) : List Marker :=
  (if f.isId then [bareMarker "Id"] else []) ++
    (if isGenerated p f then [bareMarker "SnowflakeGenerator"] else []) ++
    (if f.column.json then [classMarker "Type" (simpleType "StringJsonUserType")] else []) ++
    [columnMarker f.column]

def entityFieldImports (p : Policy) (f : EntityField) : List String :=
  f.imports ++
    (if isGenerated p f then ["com.ymsl.solid.jpa.uuid.annotation.SnowflakeGenerator"] else []) ++
    initialValueImports f

/-- The imports of a field of a value object, which does not say how JSON is stored. -/
def voFieldImports (f : EntityField) : List String :=
  (if f.column.json then [] else f.imports) ++ initialValueImports f

/-- A private field with the given annotations and initial value. -/
def privateField (f : EntityField) (markers : List Marker) (value : Option String) :
    Except BuildError FieldDecl := do
  let type ← TypeRef.parse f.type
  FieldDraft.build ⟨[.privateAccess], f.name, type, markers, value⟩

def entityField (p : Policy) (f : EntityField) : Except BuildError FieldDecl :=
  privateField f (entityMarkers p f) (initialValue f)

def voField (f : EntityField) : Except BuildError FieldDecl := privateField f [] (initialValue f)

def keyField (f : EntityField) : Except BuildError FieldDecl := privateField f [] none

/-- Declares fields one after the other, each behind its imports. -/
def declareFields (importsOf : EntityField → List String)
    (declare : EntityField → Except BuildError FieldDecl) (imports : ImportSet) :
    List EntityField → Except BuildError (ImportSet × List FieldDecl)
  | [] => .ok (imports, [])
  | f :: rest => do
    let imports ← imports.addAll (importsOf f)
    let decl ← declare f
    let (imports, decls) ← declareFields importsOf declare imports rest
    return (imports, decl :: decls)

def authorDoc (e : Entity) : List String := ["@author " ++ e.author]

end JpaScaffold.Units
