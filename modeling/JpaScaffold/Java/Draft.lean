import JpaScaffold.Java.Tree

/-!
Drafts of the members of a type. A draft holds the parts as they were given; building it checks
them and brings them into their written form. Where several parts are wrong, the order of the checks
decides which one is reported.
-/
namespace JpaScaffold.Java

/-- The modifiers of a declaration. It has at least one. -/
def buildModifiers (role : Role) (ms : List Modifier) : Except BuildError (List Modifier) :=
  if ms.isEmpty then .error (.noModifiers role) else .ok (Modifier.canonical ms)

/-- A statement without the blanks around it and without the semicolons at its end. -/
def bareStatement (s : String) : String :=
  Text.mapChars (fun cs => Text.trimEnd (Text.dropEndWhile (· == ';') (Text.trim cs))) s

/-- An expression statement. It is not empty. -/
def buildStatement (role : Role) (s : String) : Except BuildError Statement :=
  let bare := bareStatement s
  if bare.isEmpty then .error (.emptyStatement role) else .ok (.expression bare)

def buildParameter (p : String × TypeRef) : Except BuildError Parameter :=
  (simpleName .parameter p.1).map fun name => ⟨name, p.2⟩

def buildAttribute (a : String × AttributeValue) : Except BuildError Attribute :=
  (simpleName .attributeKey a.1).map fun key => ⟨key, a.2⟩

def buildMarker (name : String) (attributes : List (String × AttributeValue) := []) :
    Except BuildError Marker := do
  let name ← qualifiedName .annotationType name
  let attributes ← attributes.mapM buildAttribute
  return ⟨name, attributes⟩

structure FieldDraft where
  modifiers : List Modifier
  name : String
  type : TypeRef
  markers : List Marker := []
  initialValue : Option String := none

/-- The field of a draft. Its initial value is checked first, then its name, then its modifiers. -/
def FieldDraft.build (d : FieldDraft) : Except BuildError FieldDecl := do
  let value := d.initialValue.map (Text.mapChars Text.trim)
  if value = some "" then throw (.emptyStatement .initialValue)
  let name ← simpleName .field d.name
  let modifiers ← buildModifiers .field d.modifiers
  return ⟨name, modifiers, d.markers, d.type, value⟩

structure MethodDraft where
  modifiers : List Modifier
  name : String
  returnType : TypeRef
  markers : List Marker := []
  parameters : List (String × TypeRef) := []
  statements : List String := []
  hasBody : Bool := true

/-- The method of a draft. Its statements are checked first, then its name, its modifiers and its
parameters. -/
def MethodDraft.build (d : MethodDraft) : Except BuildError MethodDecl := do
  let body ←
    if d.hasBody then some <$> d.statements.mapM (buildStatement .method) else pure none
  let name ← simpleName .method d.name
  let modifiers ← buildModifiers .method d.modifiers
  let parameters ← d.parameters.mapM buildParameter
  return ⟨name, modifiers, d.markers, parameters, d.returnType, body⟩

structure ConstructorDraft where
  modifiers : List Modifier
  name : String
  parameters : List (String × TypeRef) := []
  statements : List String := []

/-- The constructor of a draft. Its name is checked first, then its modifiers, its parameters and
its statements. -/
def ConstructorDraft.build (d : ConstructorDraft) : Except BuildError ConstructorDecl := do
  let name ← simpleName .constructor d.name
  let modifiers ← buildModifiers .constructor d.modifiers
  let parameters ← d.parameters.mapM buildParameter
  let body ← d.statements.mapM (buildStatement .constructor)
  return ⟨name, modifiers, parameters, body⟩

end JpaScaffold.Java
