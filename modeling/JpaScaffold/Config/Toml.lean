import JpaScaffold.Config
import JpaScaffold.Toml.Printer

/-!
The configuration as a document. What a document leaves out keeps its default, each name at the top
and each name of the format options on its own; the other groups are given as a whole.
-/
namespace JpaScaffold

open Toml (Value Entries)

namespace Toml

/-- The entries of a group: a table, or an array that gives the values of the names in order. -/
def Value.group? (names : List String) : Value → Option Entries
  | .table t => some t
  | .array items => some (names.zip items)
  | _ => none

namespace Entries

/-- Reads what stands under a name; nothing there is no failure. -/
def optional {α : Type} (t : Entries) (key : String) (read : Value → Option α) :
    Option (Option α) :=
  match t.lookup key with
  | none => some none
  | some v => (read v).map some

/-- Reads what stands under a name, in place of a default. -/
def withDefault {α : Type} (t : Entries) (key : String) (read : Value → Option α) (d : α) :
    Option α := (optional t key read).map (·.getD d)

/-- Reads what has to stand under a name. -/
def required {α : Type} (t : Entries) (key : String) (read : Value → Option α) : Option α :=
  (t.lookup key).bind read

end Entries

end Toml

open Toml

namespace FormatOptions

def toToml (o : FormatOptions) : Entries :=
  [("tab_width", .integer o.tabWidth), ("print_width", .integer o.printWidth)] ++
    (o.command.map fun c => ("command", .array (c.map .string))).toList ++
    [("timeout_secs", .integer o.timeoutSecs)]

def ofTable (t : Entries) : Option FormatOptions := do
  let d : FormatOptions := {}
  return {
    tabWidth := ← t.withDefault "tab_width" Value.natural? d.tabWidth
    printWidth := ← t.withDefault "print_width" Value.natural? d.printWidth
    command := ← t.optional "command" Value.strings?
    timeoutSecs := ← t.withDefault "timeout_secs" Value.natural? d.timeoutSecs }

def ofToml (v : Value) : Option FormatOptions :=
  (v.group? ["tab_width", "print_width", "command", "timeout_secs"]).bind ofTable

/-- The numbers have a place in a document. -/
def isWritable (o : FormatOptions) : Bool :=
  let fits (n : Nat) : Bool := n < Toml.integerLimit
  fits o.tabWidth && fits o.printWidth && fits o.timeoutSecs

end FormatOptions

namespace SuperClass

def toToml (s : SuperClass) : Entries := [("name", .string s.name), ("package", .string s.package)]

def ofToml (v : Value) : Option SuperClass := do
  let t ← v.group? ["name", "package"]
  return ⟨← t.required "name" Value.string?, ← t.required "package" Value.string?⟩

end SuperClass

namespace ImportList

def toToml : ImportList → Value
  | one name => .string name
  | many names => .array (names.map .string)

def ofToml : Value → Option ImportList
  | .string name => some (one name)
  | v => v.strings?.map many

end ImportList

def importEntry (name : Option String) : Entries :=
  (name.map fun n => ("import", .string n)).toList

namespace PartitionContext

def toToml (p : PartitionContext) : Entries :=
  ("expression", .string p.expression) :: importEntry p.importName

def ofToml (v : Value) : Option PartitionContext := do
  let names := ["expression", "import"]
  let t ← v.group? names
  guard (v.isTable || t.length = names.length)
  return ⟨← t.required "expression" Value.string?, ← t.optional "import" Value.string?⟩

end PartitionContext

namespace IdGenerator

def toToml (g : IdGenerator) : Entries :=
  ("next_id", .string g.nextId) :: ("next_id_as_string", .string g.nextIdAsString) ::
    importEntry g.importName

def ofToml (v : Value) : Option IdGenerator := do
  let names := ["next_id", "next_id_as_string", "import"]
  let t ← v.group? names
  guard (v.isTable || t.length = names.length)
  return ⟨← t.required "next_id" Value.string?, ← t.required "next_id_as_string" Value.string?,
    ← t.optional "import" Value.string?⟩

end IdGenerator

namespace NameMap

def toToml {α : Type} (write : α → Value) (m : NameMap α) : Value :=
  .table (m.entries.map fun e => (e.1, write e.2))

def ofToml {α : Type} (read : Value → Option α) (v : Value) : Option (NameMap α) := do
  let t ← v.table?
  return .ofList (← t.mapM fun e => (read e.2).map (e.1, ·))

end NameMap

namespace Config

def toToml (c : Config) : Entries := [
  ("author", .string c.author),
  ("partition_key", .string c.partitionKey),
  ("fallback_type", .string c.fallbackType),
  ("entity_package", .string c.entityPackage),
  ("partition_entity_package", .string c.partitionEntityPackage),
  ("entity_key_package", .string c.entityKeyPackage),
  ("repository_package", .string c.repositoryPackage),
  ("partition_repository_package", .string c.partitionRepositoryPackage),
  ("vo_package", .string c.voPackage),
  ("partition_vo_package", .string c.partitionVoPackage),
  ("omit_columns", .array (c.omitColumns.map .string)),
  ("format", .table c.format.toToml),
  ("entity_super_class", .table c.entitySuperClass.toToml),
  ("partition_entity_super_class", .table c.partitionEntitySuperClass.toToml),
  ("repository_super_class", .table c.repositorySuperClass.toToml),
  ("vo_super_class", .table c.voSuperClass.toToml),
  ("partition_vo_super_class", .table c.partitionVoSuperClass.toToml),
  ("data_type_map", c.dataTypeMap.toToml .string),
  ("data_import_map", c.dataImportMap.toToml ImportList.toToml),
  ("default_value_map", c.defaultValueMap.toToml .string),
  ("default_import_map", c.defaultImportMap.toToml .string),
  ("partition_context", .table c.partitionContext.toToml),
  ("id_generator", .table c.idGenerator.toToml)]

def ofToml (t : Entries) : Option Config := do
  let d := Config.default
  let text (key : String) (value : String) := t.withDefault key Value.string? value
  let superClass (key : String) (value : SuperClass) := t.withDefault key SuperClass.ofToml value
  let map {α : Type} (read : Value → Option α) (key : String) (value : NameMap α) :=
    t.withDefault key (NameMap.ofToml read) value
  return {
    author := ← text "author" d.author
    partitionKey := ← text "partition_key" d.partitionKey
    fallbackType := ← text "fallback_type" d.fallbackType
    entityPackage := ← text "entity_package" d.entityPackage
    partitionEntityPackage := ← text "partition_entity_package" d.partitionEntityPackage
    entityKeyPackage := ← text "entity_key_package" d.entityKeyPackage
    repositoryPackage := ← text "repository_package" d.repositoryPackage
    partitionRepositoryPackage := ← text "partition_repository_package" d.partitionRepositoryPackage
    voPackage := ← text "vo_package" d.voPackage
    partitionVoPackage := ← text "partition_vo_package" d.partitionVoPackage
    omitColumns := ← t.withDefault "omit_columns" Value.strings? d.omitColumns
    format := ← t.withDefault "format" FormatOptions.ofToml d.format
    entitySuperClass := ← superClass "entity_super_class" d.entitySuperClass
    partitionEntitySuperClass :=
      ← superClass "partition_entity_super_class" d.partitionEntitySuperClass
    repositorySuperClass := ← superClass "repository_super_class" d.repositorySuperClass
    voSuperClass := ← superClass "vo_super_class" d.voSuperClass
    partitionVoSuperClass := ← superClass "partition_vo_super_class" d.partitionVoSuperClass
    dataTypeMap := ← map Value.string? "data_type_map" d.dataTypeMap
    dataImportMap := ← map ImportList.ofToml "data_import_map" d.dataImportMap
    defaultValueMap := ← map Value.string? "default_value_map" d.defaultValueMap
    defaultImportMap := ← map Value.string? "default_import_map" d.defaultImportMap
    partitionContext :=
      ← t.withDefault "partition_context" PartitionContext.ofToml d.partitionContext
    idGenerator := ← t.withDefault "id_generator" IdGenerator.ofToml d.idGenerator }

/-- The document of a configuration, if its numbers have a place in one. -/
def print (c : Config) : Option String :=
  if c.format.isWritable then some (Toml.print c.toToml) else none

def parse (text : String) : Option Config := (Toml.parse text).bind ofToml

end Config

end JpaScaffold
