import JpaScaffold.Units.Members

/-!
The entity class of a table.
-/
namespace JpaScaffold.Units

open Java (BuildError ClassDraft CompilationUnit FieldDecl ImportSet Marker MethodDecl MethodDraft
  TypeRef UnitDraft)

def entityImports : List String := [
  "jakarta.persistence.Column", "jakarta.persistence.Entity", "jakarta.persistence.Id",
  "jakarta.persistence.PostLoad", "jakarta.persistence.PostPersist", "jakarta.persistence.Table",
  "jakarta.persistence.Transient", "lombok.Getter", "lombok.Setter",
  "org.springframework.data.domain.Persistable"]

def isNewField : FieldDecl where
  name := "isNew"
  modifiers := [.privateAccess]
  markers := [bareMarker "Transient"]
  type := simpleType "boolean"
  initialValue := some "true"

def isNewMethod : MethodDecl where
  name := "isNew"
  modifiers := [.publicAccess]
  markers := [bareMarker "Override"]
  parameters := []
  returnType := simpleType "boolean"
  body := some [.expression "return isNew"]

/-- The method that clears the flag once the entity was stored or loaded. -/
def markMethod : MethodDecl where
  name := "markAsNotNew"
  modifiers := [.publicAccess]
  markers := [bareMarker "PostPersist", bareMarker "PostLoad"]
  parameters := []
  returnType := simpleType "void"
  body := some [.expression "this.isNew = false"]

/-- The expression for the key of an entity: a new key of the identifying fields, or the first one.
-/
def idExpression (p : Policy) (keyType : String) (id : EntityField) (more : List EntityField) :
    String :=
  if p.compositeKey then
    keyType ++ ".of(" ++ ", ".intercalate ((id :: more).map EntityField.name) ++ ")"
  else id.name

/-- The import of the key class, if it lives in another package than `package`. -/
def keyImport (e : Entity) (package keyType : String) : List String :=
  if e.packages.entityKey = package then [] else [e.packages.entityKey ++ "." ++ keyType]

/-- The imports that an entity has before those of its fields. -/
def entityHeaderImports (e : Entity) (p : Policy) (keyType : String) : List String :=
  e.superClass.fullName :: entityImports ++
    (if p.compositeKey then
      "jakarta.persistence.IdClass" :: keyImport e e.packages.entity keyType
    else [])

def idClassMarkers (p : Policy) (keyType : String) : Except BuildError (List Marker) :=
  if p.compositeKey then (TypeRef.parse keyType).map fun key => [classMarker "IdClass" key]
  else .ok []

/-- The entity class, whose rows `id` and `more` identify. -/
def buildEntity (e : Entity) (p : Policy) (id : EntityField) (more : List EntityField) :
    Except BuildError CompilationUnit := do
  let keyType := e.keyTypeOf id
  let imports ← ImportSet.addAll {} (entityHeaderImports e p keyType)
  let idClass ← idClassMarkers p keyType
  let superClass ← TypeRef.parse e.superClass.name
  let key ← TypeRef.parse keyType
  let (imports, fields) ← declareFields (entityFieldImports p) (entityField p) imports e.fields
  let getId ← MethodDraft.build
    { modifiers := [.publicAccess]
      name := "getId"
      returnType := key
      markers := [bareMarker "Override"]
      statements := ["return " ++ idExpression p keyType id more] }
  let decl ← ClassDraft.build
    { modifiers := [.publicAccess]
      name := e.className
      markers := [bareMarker "Entity", bareMarker "Getter", bareMarker "Setter"] ++ idClass ++
        [⟨"Table", [⟨"name", .string e.tableName⟩]⟩]
      superClass := some superClass
      interfaces := [.mk "Persistable" [key] 0]
      fields := serialVersion :: fields ++ [isNewField]
      methods := [getId, isNewMethod, markMethod] }
  let draft ← UnitDraft.addAll {}
    [.package e.packages.entity, .importSet imports, .doc (authorDoc e), .classDecl decl]
  draft.build

def entityUnit (e : Entity) (p : Policy) : Except TableError CompilationUnit :=
  match e.idFields with
  | [] => .error (.noKey e.tableName)
  | id :: more => (buildEntity e p id more).mapError .build

end JpaScaffold.Units
