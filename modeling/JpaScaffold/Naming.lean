import JpaScaffold.Text.Trim
import JpaScaffold.Text.Words

/-!
The Java names of tables and columns.
-/
namespace JpaScaffold.Naming

/-- The words that cannot be names of fields. -/
def keywords : List String := [
  "abstract", "assert", "boolean", "break", "byte", "case", "catch", "char", "class", "const",
  "continue", "default", "do", "double", "else", "enum", "extends", "final", "finally", "float",
  "for", "goto", "if", "implements", "import", "instanceof", "int", "interface", "long",
  "native", "new", "package", "private", "protected", "public", "return", "short", "static",
  "strictfp", "super", "switch", "synchronized", "this", "throw", "throws", "transient", "try",
  "void", "volatile", "while", "true", "false", "null", "var", "record", "yield"]

def isKeyword (word : String) : Bool := keywords.contains word

/-- The class of a table: its words written together with capital letters. -/
def className (table : String) : String := Text.mapChars Text.upperCamel table

/-- A name that is a keyword gets another spelling. -/
def avoidKeyword (name : String) : String :=
  if name = "class" then "clazz" else if isKeyword name then name ++ "Value" else name

def fieldName (column : String) : String := avoidKeyword (Text.mapChars Text.lowerCamel column)

end JpaScaffold.Naming
