import JpaScaffold.NameMap

/-!
The configuration of the generator, and its default values.
-/
namespace JpaScaffold

/-- How source is formatted: the measures of the layout, or a command that is given the source. -/
structure FormatOptions where
  tabWidth : Nat := 4
  printWidth : Nat := 120
  /-- A program and its arguments. It reads the source and writes the formatted source. -/
  command : Option (List String) := none
  timeoutSecs : Nat := 30
  deriving DecidableEq

/-- A class that generated types extend. -/
structure SuperClass where
  name : String
  /-- The package of the class, or its full name. -/
  package : String
  deriving DecidableEq

def SuperClass.fullName (s : SuperClass) : String :=
  let suffix := "." ++ s.name
  if suffix.toList.isSuffixOf s.package.toList || s.package == s.name then s.package
  else s.package ++ suffix

/-- One import or several. -/
inductive ImportList where
  | one (name : String)
  | many (names : List String)
  deriving DecidableEq

def ImportList.names : ImportList → List String
  | one name => [name]
  | many names => names

/-- The expression that looks the partition up. -/
structure PartitionContext where
  expression : String
  importName : Option String
  deriving DecidableEq

/-- The expressions that make new identifiers. -/
structure IdGenerator where
  nextId : String
  nextIdAsString : String
  importName : Option String
  deriving DecidableEq

structure Config where
  author : String
  partitionKey : String
  /-- The Java type of columns whose type has none of its own. -/
  fallbackType : String
  entityPackage : String
  partitionEntityPackage : String
  entityKeyPackage : String
  repositoryPackage : String
  partitionRepositoryPackage : String
  voPackage : String
  partitionVoPackage : String
  /-- Columns that are left out. -/
  omitColumns : List String
  format : FormatOptions
  entitySuperClass : SuperClass
  partitionEntitySuperClass : SuperClass
  repositorySuperClass : SuperClass
  voSuperClass : SuperClass
  partitionVoSuperClass : SuperClass
  /-- Java types by SQL type. -/
  dataTypeMap : NameMap String
  /-- Imports by SQL type. -/
  dataImportMap : NameMap ImportList
  /-- Initial values by SQL type. -/
  defaultValueMap : NameMap String
  /-- Imports of the initial values by SQL type. -/
  defaultImportMap : NameMap String
  partitionContext : PartitionContext
  idGenerator : IdGenerator
  deriving DecidableEq

namespace Config

def defaultTypes : NameMap String := .ofList [
  ("bigint", "Long"), ("int8", "Long"), ("integer", "Integer"), ("int", "Integer"),
  ("int4", "Integer"), ("smallint", "Integer"), ("int2", "Integer"), ("date", "LocalDate"),
  ("timestamp", "Instant"), ("timestamptz", "Instant"), ("time", "LocalTime"),
  ("timetz", "LocalTime"), ("numeric", "BigDecimal"), ("decimal", "BigDecimal"),
  ("character varying", "String"), ("varchar", "String"), ("character", "String"),
  ("char", "String"), ("text", "String"), ("bpchar", "String"), ("boolean", "Boolean"),
  ("bool", "Boolean"), ("bytea", "byte[]"), ("jsonb", "String"), ("json", "String")]

/-- The imports of columns that hold JSON. -/
def jsonImports : ImportList :=
  .many ["org.hibernate.annotations.Type", "com.ymsl.solid.jpa.usertype.StringJsonUserType"]

def defaultImports : NameMap ImportList := .ofList [
  ("numeric", .one "java.math.BigDecimal"), ("decimal", .one "java.math.BigDecimal"),
  ("timestamptz", .one "java.time.Instant"), ("timestamp", .one "java.time.Instant"),
  ("time", .one "java.time.LocalTime"), ("timetz", .one "java.time.LocalTime"),
  ("date", .one "java.time.LocalDate"), ("json", jsonImports), ("jsonb", jsonImports)]

def zeroIntegers : List String := ["integer", "int", "int4", "smallint", "int2"]

def zeroDecimals : List String := ["numeric", "decimal"]

def defaultValues : NameMap String := .ofList
  (zeroIntegers.map (·, "CommonConstants.INTEGER_ZERO") ++ zeroDecimals.map (·, "BigDecimal.ZERO"))

def defaultValueImports : NameMap String := .ofList
  (zeroIntegers.map (·, "com.a1stream.common.constants.CommonConstants") ++
    zeroDecimals.map (·, "java.math.BigDecimal"))

/-- The configuration without a file. -/
def default : Config where
  author := "Entity Generator G3"
  partitionKey := "dealer_partition_"
  fallbackType := "Object"
  entityPackage := "com.a1stream.domain.entity"
  partitionEntityPackage := "com.a1stream.domain.entity.partition"
  entityKeyPackage := "com.a1stream.domain.entity.partition"
  repositoryPackage := "com.a1stream.domain.repository"
  partitionRepositoryPackage := "com.a1stream.domain.repository.partition"
  voPackage := "com.a1stream.domain.vo"
  partitionVoPackage := "com.a1stream.domain.vo.partition"
  omitColumns := ["update_author_", "update_date_", "create_author_", "create_date_",
    "update_program_", "update_counter_"]
  format := {}
  entitySuperClass := ⟨"BaseEntity", "com.a1stream.common.model"⟩
  partitionEntitySuperClass := ⟨"BasePartitionEntity", "com.a1stream.common.model"⟩
  repositorySuperClass := ⟨"ExtensionRepository", "com.a1stream.common.jpa.repository"⟩
  voSuperClass := ⟨"BaseVO", "com.a1stream.common.model"⟩
  partitionVoSuperClass := ⟨"BasePartitionVO", "com.a1stream.common.model"⟩
  dataTypeMap := defaultTypes
  dataImportMap := defaultImports
  defaultValueMap := defaultValues
  defaultImportMap := defaultValueImports
  partitionContext :=
    ⟨"UserDetailsUtil.getDealerPartition()", some "com.a1stream.common.utils.UserDetailsUtil"⟩
  idGenerator :=
    ⟨"IdUtils.getSnowflakeIdWorker().nextId()", "IdUtils.getSnowflakeIdWorker().nextIdStr()",
      some "com.ymsl.solid.base.util.IdUtils"⟩

/-- A column of this name is left out. -/
def omits (c : Config) (column : String) : Bool := c.omitColumns.contains column

end Config

end JpaScaffold
