import JpaScaffold.Config

/-!
The Java type that stands for a SQL type.
-/
namespace JpaScaffold

structure JavaType where
  name : String
  /-- The imports that the type needs. -/
  imports : List String
  /-- The value that fields of the type start with. -/
  initialValue : Option String
  initialValueImport : Option String
  /-- The SQL type has no Java type of its own. -/
  isFallback : Bool
  deriving DecidableEq

/-- The Java type for the SQL type of this canonical name. -/
def Config.javaType (c : Config) (sqlType : String) : JavaType where
  name := (c.dataTypeMap.get? sqlType).getD c.fallbackType
  imports := ((c.dataImportMap.get? sqlType).map ImportList.names).getD []
  initialValue := c.defaultValueMap.get? sqlType
  initialValueImport := c.defaultImportMap.get? sqlType
  isFallback := (c.dataTypeMap.get? sqlType).isNone

end JpaScaffold
