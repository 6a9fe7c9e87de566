import JpaScaffold.Config
import JpaScaffold.Ddl.Script
import JpaScaffold.Sql.StatementParser
import JpaScaffold.Sql.TypeName
import JpaScaffold.Table
import JpaScaffold.TableError

/-!
Reading a table from its CREATE TABLE statement. Array columns and the columns that the
configuration omits are left out, of the columns and of the key.
-/
namespace JpaScaffold

namespace Sql

def Constraint.primaryKeyColumns : Constraint → List String
  | primaryKey columns => columns.map Ident.value
  | _ => []

def ColumnDef.isPrimaryKey (c : ColumnDef) : Bool := c.options.contains .primaryKey

/-- The names of the key columns, each once: those of the constraints, then the columns that are
marked themselves. -/
def CreateTable.declaredKeys (s : CreateTable) : List String :=
  (s.constraints.flatMap Constraint.primaryKeyColumns ++
    (s.columns.filter ColumnDef.isPrimaryKey).map fun c => c.name.value).eraseDups

/-- The columns that are kept under a configuration. -/
def CreateTable.retained (s : CreateTable) (c : Config) : List ColumnDef :=
  s.columns.filter fun column => !column.type.isArray && !c.omits column.name.value

/-- The key columns that are kept. -/
def CreateTable.retainedKeys (s : CreateTable) (c : Config) : List String :=
  s.declaredKeys.filter fun key => (s.retained c).any fun column => column.name.value == key

end Sql

/-- The column of a definition, where `keys` are the key columns of its table. -/
def Column.ofDef (c : Config) (keys : List String) (d : Sql.ColumnDef) : Column :=
  let type := Sql.TypeName.parse d.type.text
  { name := d.name.value
    sqlType := type.name
    length := type.length
    precision := type.precision
    scale := type.scale
    nullable := d.options.contains .null
    isPrimaryKey := keys.contains d.name.value
    isPartitionKey := keys.contains c.partitionKey && d.name.value == c.partitionKey
    json := type.isJson }

namespace Table

def ofCreateTable (c : Config) (partitionClause : Bool) (s : Sql.CreateTable) : Table where
  name := s.name.value
  primaryKeys := s.retainedKeys c
  columns := (s.retained c).map (Column.ofDef c (s.retainedKeys c))
  partitionClause

/-- The table of a statement, which has to be a CREATE TABLE statement. -/
def ofStatement (c : Config) (partitionClause : Bool) : Sql.Statement → Except TableError Table
  | .createTable s => .ok (ofCreateTable c partitionClause s)
  | .other => .error (.metadata .notCreateTable)

def ofStatements (c : Config) (partitionClause : Bool) :
    List Sql.Statement → Except TableError Table
  | [] => .error .noStatement
  | .other :: _ => .error .notATable
  | .createTable s :: _ => ofStatement c partitionClause (.createTable s)

/-- The table of a statement without its partition clause. -/
def ofSql (c : Config) (partitionClause : Bool) (sql : String) : Except TableError Table :=
  match Sql.parseStatements sql with
  | none => .error .malformedSql
  | some statements => ofStatements c partitionClause statements

/-- The table of a statement. Nothing is read of a statement that cannot be scanned. -/
def read (c : Config) (ddl : String) : Except Ddl.ScanFault (Except TableError Table) :=
  (Ddl.stripPartition ddl).map fun (sql, partitionClause) => ofSql c partitionClause sql

end Table

end JpaScaffold
