import JpaScaffold.Java.BuildError
import JpaScaffold.Java.SourceError

/-!
What can go wrong with one table, from its statement to its formatted source.
-/
namespace JpaScaffold

/-- The causes for which source is not formatted. -/
inductive FormatError where
  | source (error : Java.SourceError)
  | timeout (command : String) (seconds : Nat)
  | failed (command reason : String)
  deriving DecidableEq

def FormatError.message : FormatError → String
  | source e => e.message
  | timeout command seconds =>
    "formatter command \x60" ++ command ++ "\x60 timed out after " ++ toString seconds ++ "s"
  | failed command reason => "formatter command \x60" ++ command ++ "\x60 failed: " ++ reason

/-- What the metadata of a table lacks. -/
inductive MetadataFault where
  | notCreateTable
  | noPartitionColumn (table : String)
  deriving DecidableEq

def MetadataFault.message : MetadataFault → String
  | notCreateTable => "statement is not a CREATE TABLE"
  | noPartitionColumn table => table ++ " has no partition column"

/-- The causes for which nothing is generated for a table. -/
inductive TableError where
  | notATable
  | noStatement
  /-- The statement cannot be parsed. -/
  | malformedSql
  | metadata (fault : MetadataFault)
  /-- No key column identifies a row. -/
  | noKey (table : String)
  | build (error : Java.BuildError)
  | format (error : FormatError)
  deriving DecidableEq

/-- The text of a cause. Of a statement that cannot be parsed it names the kind only. -/
def TableError.message : TableError → String
  | notATable => "DDL is not a create table statement"
  | noStatement => "No statement found in DDL"
  | malformedSql => "SQL syntax error"
  | metadata fault => "Table metadata error: " ++ fault.message
  | noKey table => "Id field not found in table " ++ table
  | build e => "AST build error: " ++ e.message
  | format e => "Format error: " ++ e.message

/-- The cause lies in the generator and not in its input. -/
def TableError.isDefect : TableError → Bool
  | build _ => true
  | _ => false

end JpaScaffold
