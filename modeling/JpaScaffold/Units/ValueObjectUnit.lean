import JpaScaffold.Units.Members

/-!
The value object of a table. Where the first identifying field can be generated, the value object
has builders: one that sets the identifiers, and one that sets the initial values as well.
-/
namespace JpaScaffold.Units

open Java (BuildError ClassDraft CompilationUnit ImportSet MethodDecl MethodDraft TypeRef UnitDraft)

def voImports : List String := [
  "lombok.AllArgsConstructor", "lombok.Builder", "lombok.Data", "lombok.EqualsAndHashCode",
  "lombok.NoArgsConstructor"]

/-- A call of a builder: the field that it sets, and the value. -/
structure Setter where
  field : String
  value : String
  deriving DecidableEq

/-- The call that generates an identifier, for the types that can be generated. -/
def idCall (calls : Calls) (f : EntityField) : Option Call :=
  if f.type = "Long" then some calls.nextId
  else if f.type = "String" then some calls.nextIdAsString
  else none

def idSetters (calls : Calls) (ids : List EntityField) : List Setter :=
  ids.filterMap fun f => (idCall calls f).map fun call => ⟨f.name, call.expression⟩

/-- The calls that set the initial values of the fields outside the key. -/
def valueSetters (e : Entity) : List Setter :=
  (e.fields.filter (!·.column.isPrimaryKey)).filterMap fun f =>
    f.initialValue.map fun value => ⟨f.name, value⟩

/-- The field that the builder fills with the partition. -/
def populatedPartition (e : Entity) (p : Policy) : Option EntityField :=
  if p.voPopulatesPartition then e.partitionField else none

def partitionSetters (e : Entity) (p : Policy) (calls : Calls) : List Setter :=
  (populatedPartition e p).toList.map fun f => ⟨f.name, calls.partition.expression⟩

/-- The builders exist: the call for the first generated identifier sets the field `id`. -/
def hasBuilders (setters : List Setter) (id : EntityField) : Bool :=
  match setters with
  | first :: _ => first.field == id.name
  | [] => false

def builderImports (e : Entity) (p : Policy) (calls : Calls) (ids : List EntityField) :
    List String :=
  (ids.filterMap (idCall calls)).flatMap (fun call => call.importName.toList) ++
    (populatedPartition e p).toList.flatMap fun _ => calls.partition.importName.toList

def chainText (voName : String) (setters : List Setter) : String :=
  voName ++ ".builder()" ++
    String.join (setters.map fun s => "." ++ s.field ++ "(" ++ s.value ++ ")")

/-- A method that answers a builder on which the calls were made. -/
def builderMethod (voName name : String) (setters : List Setter) :
    Except BuildError MethodDecl := do
  let type ← TypeRef.parse (voName ++ "Builder")
  MethodDraft.build
    { modifiers := [.publicAccess, .staticMember]
      name
      returnType := type
      statements := ["return " ++ chainText voName setters] }

/-- The builders of a value object and its imports with theirs. -/
def voBuilders (e : Entity) (p : Policy) (calls : Calls) (id : EntityField)
    (more : List EntityField) (imports : ImportSet) :
    Except BuildError (ImportSet × List MethodDecl) := do
  let setters := idSetters calls (id :: more)
  if hasBuilders setters id then
    let imports ← imports.addAll (builderImports e p calls (id :: more))
    let withId ← builderMethod e.voName "builderWithId" setters
    let withDefault ← builderMethod e.voName "builderWithDefault"
      (setters ++ valueSetters e ++ partitionSetters e p calls)
    return (imports, [withId, withDefault])
  else return (imports, [])

/-- The value object, whose rows `id` and `more` identify. -/
def buildValueObject (e : Entity) (p : Policy) (calls : Calls) (id : EntityField)
    (more : List EntityField) : Except BuildError CompilationUnit := do
  let imports ← ImportSet.addAll {} (e.voSuper.fullName :: voImports)
  let (imports, fields) ← declareFields voFieldImports voField imports e.fields
  let superClass ← TypeRef.parse e.voSuper.name
  let (imports, methods) ← voBuilders e p calls id more imports
  let draft ← UnitDraft.addAll {}
    [.package e.packages.vo, .importSet imports, .doc (authorDoc e)]
  let decl ← ClassDraft.build
    { modifiers := [.publicAccess]
      name := e.voName
      markers := [bareMarker "Data", bareMarker "Builder", bareMarker "AllArgsConstructor",
        bareMarker "NoArgsConstructor", ⟨"EqualsAndHashCode", [⟨"callSuper", .verbatim "true"⟩]⟩]
      superClass := some superClass
      fields := serialVersion :: fields
      methods }
  let draft ← draft.add (.classDecl decl)
  draft.build

def valueObjectUnit (e : Entity) (p : Policy) (calls : Calls) :
    Except TableError CompilationUnit :=
  match e.idFields with
  | [] => .error (.noKey e.tableName)
  | id :: more => (buildValueObject e p calls id more).mapError .build

end JpaScaffold.Units
