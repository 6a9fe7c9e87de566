import JpaScaffold.Config.JavaType
import JpaScaffold.Naming
import JpaScaffold.Notice
import JpaScaffold.Table
import JpaScaffold.TableError

/-!
The entity of a table: the Java names and types of its columns, its packages and super classes, and
the fields that identify a row.
-/
namespace JpaScaffold

/-- How a table is partitioned: not at all, by a clause only, or by a column of its primary key. -/
inductive Partitioning where
  | none
  | clause
  | compositeKey
  deriving DecidableEq

def Partitioning.isPartitioned (p : Partitioning) : Bool := p != .none

/-- The packages of the generated types. -/
structure Packages where
  entity : String
  entityKey : String
  repository : String
  vo : String
  deriving DecidableEq

/-- A column as a Java field. -/
structure EntityField where
  column : Column
  name : String
  type : String
  imports : List String
  initialValue : Option String
  initialValueImport : Option String
  deriving DecidableEq

/-- A key column that identifies a row, which the partition key does not. -/
def EntityField.isId (f : EntityField) : Bool :=
  f.column.isPrimaryKey && !f.column.isPartitionKey

structure Entity where
  tableName : String
  className : String
  /-- The names of the key fields in the order of the key. -/
  primaryKeys : List String
  partitioning : Partitioning
  /-- The name of the field that holds the partition key. -/
  partitionName : Option String
  packages : Packages
  superClass : SuperClass
  repositorySuper : SuperClass
  voSuper : SuperClass
  author : String
  fields : List EntityField
  deriving DecidableEq

def EntityField.ofColumn (c : Config) (column : Column) : EntityField :=
  let type := c.javaType column.sqlType
  { column
    name := Naming.fieldName column.name
    type := type.name
    imports := type.imports
    initialValue := type.initialValue
    initialValueImport := type.initialValueImport }

/-- How a table is partitioned under a configuration. -/
def Config.partitioning (c : Config) (t : Table) : Partitioning :=
  if t.primaryKeys.contains c.partitionKey then .compositeKey
  else if t.partitionClause then .clause
  else .none

/-- The packages of a table's types. -/
def Config.packages (c : Config) (partitioned : Bool) : Packages where
  entity := if partitioned then c.partitionEntityPackage else c.entityPackage
  entityKey := c.entityKeyPackage
  repository := if partitioned then c.partitionRepositoryPackage else c.repositoryPackage
  vo := if partitioned then c.partitionVoPackage else c.voPackage

namespace Entity

def ofTable (c : Config) (t : Table) : Entity :=
  let partitioning := c.partitioning t
  let partitioned := partitioning.isPartitioned
  let fields := t.columns.map (EntityField.ofColumn c)
  { tableName := t.name
    className := Naming.className t.name
    primaryKeys := t.primaryKeys.map Naming.fieldName
    partitioning
    partitionName := (fields.find? (·.column.name == c.partitionKey)).map EntityField.name
    packages := c.packages partitioned
    superClass := if partitioned then c.partitionEntitySuperClass else c.entitySuperClass
    repositorySuper := c.repositorySuperClass
    voSuper := if partitioned then c.partitionVoSuperClass else c.voSuperClass
    author := c.author
    fields }

/-- The reports on columns whose type has no Java type of its own. -/
def typeNotices (c : Config) (t : Table) : List Notice :=
  t.columns.filterMap fun column =>
    let type := c.javaType column.sqlType
    if type.isFallback then
      some ⟨.warn, "Column " ++ t.name ++ "." ++ column.name ++ " has unmapped type '" ++
        column.sqlType ++ "', using " ++ type.name⟩
    else none

/-- The first field of this name. -/
def field? (e : Entity) (name : String) : Option EntityField := e.fields.find? (·.name == name)

/-- The fields that identify a row, in the order of the key. -/
def idFields (e : Entity) : List EntityField :=
  (e.primaryKeys.filterMap e.field?).filter EntityField.isId

/-- The field that holds the partition key. -/
def partitionField (e : Entity) : Option EntityField := e.partitionName.bind e.field?

def keyClassName (e : Entity) : String := e.className ++ "Key"

def repositoryName (e : Entity) : String := e.className ++ "Repository"

def voName (e : Entity) : String := e.className ++ "VO"

/-- The key has a class of its own. -/
def hasCompositeKey (e : Entity) : Bool := e.partitioning == .compositeKey

/-- The type of the key, where `id` is the first field that identifies a row. -/
def keyTypeOf (e : Entity) (id : EntityField) : String :=
  if e.hasCompositeKey then e.keyClassName else id.type

def keyType (e : Entity) : Except TableError String :=
  match e.idFields with
  | [] => .error (.noKey e.tableName)
  | id :: _ => .ok (e.keyTypeOf id)

/-- The report on a key of several columns of which only the first one is used. -/
def keyNotices (e : Entity) : List Notice :=
  match e.idFields with
  | id :: other :: more =>
    if e.hasCompositeKey then []
    else [⟨.warn, "Table " ++ e.tableName ++ " has " ++ toString (id :: other :: more).length ++
      " key columns but no partition key; using " ++ id.name ++ " as the id"⟩]
  | _ => []

end Entity

end JpaScaffold
