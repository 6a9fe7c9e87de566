/-!
Tables as the generator sees them.
-/
namespace JpaScaffold

structure Column where
  name : String
  /-- The canonical name of the type, without its arguments. -/
  sqlType : String
  /-- Set for character types of variable length only. -/
  length : Option Nat
  /-- Set for `numeric` only. -/
  precision : Option Nat
  scale : Option Nat
  /-- The column says NULL. -/
  nullable : Bool
  isPrimaryKey : Bool
  /-- The column is the partition key and belongs to the primary key. -/
  isPartitionKey : Bool
  json : Bool
  deriving DecidableEq

structure Table where
  name : String
  /-- The names of the key columns in the order of their declaration. -/
  primaryKeys : List String
  columns : List Column
  /-- The statement had a PARTITION BY clause. -/
  partitionClause : Bool
  deriving DecidableEq

end JpaScaffold
