import JpaScaffold.Units.EntityUnit

/-!
The key class of a table whose primary key holds the partition key. A key is made of the fields that
identify a row; the partition is looked up.
-/
namespace JpaScaffold.Units

open Java (BuildError ClassDraft CompilationUnit ConstructorDraft FieldDraft ImportSet MethodDraft
  TypeRef UnitDraft)

/-- The imports that a key has before those of its fields. -/
def keyImports (calls : Calls) : List String :=
  ["lombok.Data", "lombok.NoArgsConstructor", "java.io.Serializable"] ++
    calls.partition.importName.toList

/-- The key class, whose field `partition` is looked up. -/
def buildKey (e : Entity) (calls : Calls) (ids : List EntityField) (partition : String) :
    Except BuildError CompilationUnit := do
  let imports ← ImportSet.addAll {} (keyImports calls)
  let key ← TypeRef.parse e.keyClassName
  let (imports, fields) ← declareFields EntityField.imports keyField imports ids
  let imports ← imports.addAll ((e.partitionField.map EntityField.imports).getD [])
  let partitionType ← TypeRef.parse ((e.partitionField.map EntityField.type).getD "String")
  let partitionDecl ← FieldDraft.build
    { modifiers := [.privateAccess], name := partition, type := partitionType }
  let parameters := fields.map fun f => (f.name, f.type)
  let constructor ← ConstructorDraft.build
    { modifiers := [.privateAccess]
      name := e.keyClassName
      parameters
      statements := ids.map (fun f => "this." ++ f.name ++ " = " ++ f.name) ++
        ["this." ++ partition ++ " = " ++ calls.partition.expression] }
  let make ← MethodDraft.build
    { modifiers := [.publicAccess, .staticMember]
      name := "of"
      returnType := key
      parameters
      statements := ["return new " ++ e.keyClassName ++ "(" ++
        ", ".intercalate (ids.map EntityField.name) ++ ")"] }
  let decl ← ClassDraft.build
    { modifiers := [.publicAccess]
      name := e.keyClassName
      markers := [bareMarker "Data", bareMarker "NoArgsConstructor"]
      interfaces := [simpleType "Serializable"]
      fields := serialVersion :: fields ++ [partitionDecl]
      constructors := [constructor]
      methods := [make] }
  let draft ← UnitDraft.addAll {}
    [.package e.packages.entityKey, .importSet imports, .doc (authorDoc e), .classDecl decl]
  draft.build

def keyUnit (e : Entity) (calls : Calls) : Except TableError CompilationUnit :=
  match e.idFields, e.partitionName with
  | [], _ => .error (.noKey e.tableName)
  | _ :: _, none => .error (.metadata (.noPartitionColumn e.tableName))
  | ids, some partition => (buildKey e calls ids partition).mapError .build

end JpaScaffold.Units
