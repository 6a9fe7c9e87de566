import JpaScaffold.Units.EntityUnit

/-!
The repository interface of a table.
-/
namespace JpaScaffold.Units

open Java (BuildError CompilationUnit ImportSet InterfaceDraft TypeRef UnitDraft)

/-- The imports of a repository, for a key whose first field is `id`. -/
def repositoryImports (e : Entity) (p : Policy) (id : EntityField) : List String :=
  ["org.springframework.stereotype.Repository", e.repositorySuper.fullName] ++
    (if e.packages.entity = e.packages.repository then []
    else [e.packages.entity ++ "." ++ e.className]) ++
    (if p.compositeKey then keyImport e e.packages.repository (e.keyTypeOf id) else id.imports)

/-- The repository, for a key whose first field is `id`. -/
def buildRepository (e : Entity) (p : Policy) (id : EntityField) :
    Except BuildError CompilationUnit := do
  let imports ← ImportSet.addAll {} (repositoryImports e p id)
  let entity ← TypeRef.parse e.className
  let key ← TypeRef.parse (e.keyTypeOf id)
  let base ← TypeRef.generic e.repositorySuper.name [entity, key]
  let decl ← InterfaceDraft.build
    { modifiers := [.publicAccess]
      name := e.repositoryName
      markers := [bareMarker "Repository"]
      supers := [base] }
  let draft ← UnitDraft.addAll {}
    [.package e.packages.repository, .importSet imports, .doc (authorDoc e), .interfaceDecl decl]
  draft.build

def repositoryUnit (e : Entity) (p : Policy) : Except TableError CompilationUnit :=
  match e.idFields with
  | [] => .error (.noKey e.tableName)
  | id :: _ => (buildRepository e p id).mapError .build

end JpaScaffold.Units
