import JpaScaffold.Entity

/-!
How the generated types of a table differ with its partitioning, and the calls that they make.
-/
namespace JpaScaffold.Units

structure Policy where
  /-- The entity has a class for its key. -/
  compositeKey : Bool
  /-- Numeric identifiers are generated. -/
  generateIdentity : Bool
  /-- The builder of the value object fills in the partition. -/
  voPopulatesPartition : Bool
  deriving DecidableEq

namespace Policy

/-- The policy for tables whose key does not hold the partition key. -/
def simple (e : Entity) : Policy := ⟨false, true, e.partitioning == .clause⟩

/-- The policy for tables whose key holds the partition key. -/
def partition : Policy := ⟨true, false, true⟩

def of (e : Entity) : Policy := if e.hasCompositeKey then partition else simple e

end Policy

/-- A call that generated code makes, and the import that it needs. -/
structure Call where
  expression : String
  importName : Option String
  deriving DecidableEq

/-- The calls that generated code makes. -/
structure Calls where
  /-- Looks the partition up. -/
  partition : Call
  /-- Generates a number that identifies a row. -/
  nextId : Call
  /-- Generates a text that identifies a row. -/
  nextIdAsString : Call
  deriving DecidableEq

def Calls.ofConfig (c : Config) : Calls where
  partition := ⟨c.partitionContext.expression, c.partitionContext.importName⟩
  nextId := ⟨c.idGenerator.nextId, c.idGenerator.importName⟩
  nextIdAsString := ⟨c.idGenerator.nextIdAsString, c.idGenerator.importName⟩

end JpaScaffold.Units
