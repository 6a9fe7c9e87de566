import JpaScaffold.Units.KeyUnit
import JpaScaffold.Units.RepositoryUnit
import JpaScaffold.Units.ValueObjectUnit

/-!
All types that are generated for a table.
-/
namespace JpaScaffold.Units

open Java (CompilationUnit)

structure TableUnits where
  entity : CompilationUnit
  key : Option CompilationUnit
  repository : CompilationUnit
  valueObject : CompilationUnit

/-- The units in the order in which they are written. -/
def TableUnits.toList (u : TableUnits) : List CompilationUnit :=
  u.entity :: u.key.toList ++ [u.repository, u.valueObject]

/-- The key class, if the policy asks for one. -/
def optionalKeyUnit (e : Entity) (p : Policy) (calls : Calls) :
    Except TableError (Option CompilationUnit) :=
  if p.compositeKey then (keyUnit e calls).map some else .ok none

/-- The units of an entity under a policy. A table has none without a field that identifies a row.
-/
def unitsUnder (e : Entity) (p : Policy) (calls : Calls) : Except TableError TableUnits := do
  if e.idFields.isEmpty then throw (.noKey e.tableName)
  let entity ← entityUnit e p
  let key ← optionalKeyUnit e p calls
  let repository ← repositoryUnit e p
  let valueObject ← valueObjectUnit e p calls
  return ⟨entity, key, repository, valueObject⟩

def units (e : Entity) (calls : Calls) : Except TableError TableUnits :=
  unitsUnder e (.of e) calls

/-- The reports on an entity while its units are built: the key is looked at for the entity, and
once more for the repository if the units before it were built. -/
def unitNotices (e : Entity) (calls : Calls) : List Notice :=
  let built := (entityUnit e (.of e)).isOk && (optionalKeyUnit e (.of e) calls).isOk
  e.keyNotices ++ if built then e.keyNotices else []

end JpaScaffold.Units
