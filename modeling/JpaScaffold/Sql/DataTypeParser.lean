import JpaScaffold.Sql.Parser

/-!
Parsing the type of a column.
-/
namespace JpaScaffold.Sql.Parser

def bareTypes : List String := [
  "BOOLEAN", "BOOL", "REAL", "FLOAT4", "FLOAT8", "FLOAT32", "FLOAT64", "UUID", "DATE", "DATE32",
  "INTERVAL", "JSON", "JSONB", "REGCLASS", "TEXT", "TINYTEXT", "MEDIUMTEXT", "LONGTEXT", "TINYBLOB",
  "MEDIUMBLOB", "LONGBLOB", "BYTEA", "TRIGGER", "INT16", "INT32", "INT64", "INT128", "INT256",
  "UINT8", "UINT16", "UINT32", "UINT64", "UINT128", "UINT256"]

def precisionTypes : List String :=
  ["FLOAT", "CLOB", "BLOB", "STRING", "BINARY", "VARBINARY", "BYTES", "DATETIME"]

def integerTypes : List String :=
  ["TINYINT", "INT2", "SMALLINT", "MEDIUMINT", "INT", "INT4", "INT8", "INTEGER", "BIGINT"]

/-- Decimal types, with a precision and a scale at will. -/
def decimalTypes : List String := ["NUMERIC", "DECIMAL", "DEC", "BIGNUMERIC", "BIGDECIMAL"]

def precision : Parser (Option String) := do
  return (← optionalParens count).map toString

def characterLength : Parser (Option String) :=
  optionalParens do
    if ← tryKeywords ["MAX"] then return "MAX"
    let n ← count
    if ← tryKeywords ["CHARACTERS"] then return toString n ++ " CHARACTERS"
    if ← tryKeywords ["OCTETS"] then return toString n ++ " OCTETS"
    return toString n

def decimalSize : Parser (Option String) :=
  optionalParens do
    let p ← count
    if ← tryOperator "," then return toString p ++ "," ++ toString (← count)
    return toString p

def timeZone : Parser String := do
  if ← tryKeywords ["WITH"] then
    keywords ["TIME", "ZONE"]
    return " WITH TIME ZONE"
  if ← tryKeywords ["WITHOUT"] then
    keywords ["TIME", "ZONE"]
    return " WITHOUT TIME ZONE"
  return ""

/-- A character type, where `word` is its first word. -/
def characterType (word : String) : Parser DataType := do
  if ← tryKeywords ["VARYING"] then
    return .builtin (word ++ " VARYING") (← characterLength) ""
  if ← tryKeywords ["LARGE", "OBJECT"] then
    return .builtin (word ++ " LARGE OBJECT") (← precision) ""
  return .builtin word (← characterLength) ""

/-- A string as it is written inside a list of labels. A word may stand for it. -/
def label : Parser String := do
  match ← next with
  | .string value | .word value _ | .quotedName value =>
    let text := "'" ++ String.ofList (escapedName '\'' '\x00' value.toList) ++ "'"
    if ← tryOperator "=" then
      match ← next with
      | .number digits => return text ++ " = " ++ digits
      | _ => failure
    return text
  | _ => failure

def labels : Parser String := do
  return ", ".intercalate (← parenthesized (commaSeparated label))

def modifierText : Token → Option (Option String)
  | .word value _ => some (some value)
  | .quotedName value => some (some ("\"" ++ value ++ "\""))
  | .number digits => some (some digits)
  | .string value => some (some value)
  | .operator "," => some none
  | _ => none

/-- The modifiers up to the closing parenthesis. Commas between them may be left out. -/
def modifiersTail : List Token → Option (List String × List Token)
  | [] => none
  | t :: ts =>
    if t.isOperator ")" then some ([], ts)
    else
      (modifierText t).bind fun m =>
        (modifiersTail ts).map fun (ms, rest) => (m.toList ++ ms, rest)

def customType : Parser DataType := do
  let name ← objectName
  if ← tryOperator "(" then return .custom name (← modifiersTail)
  return .custom name []

def elementType : Parser DataType := fun
  | .word value keyword :: ts =>
    let bare (p : Parser DataType) := p ts
    if bareTypes.contains keyword then bare (pure (.builtin keyword none ""))
    else if precisionTypes.contains keyword then
      bare do return .builtin keyword (← precision) ""
    else if integerTypes.contains keyword then
      bare do
        let size ← precision
        return .builtin keyword size (if ← tryKeywords ["UNSIGNED"] then " UNSIGNED" else "")
    else if decimalTypes.contains keyword then
      bare do return .builtin keyword (← decimalSize) ""
    else
      match keyword with
      | "DOUBLE" =>
        bare do
          return .builtin (if ← tryKeywords ["PRECISION"] then "DOUBLE PRECISION" else "DOUBLE")
            none ""
      | "VARCHAR" | "NVARCHAR" => bare do return .builtin keyword (← characterLength) ""
      | "CHARACTER" | "CHAR" => bare (characterType keyword)
      | "BIT" =>
        bare do
          let words := if ← tryKeywords ["VARYING"] then "BIT VARYING" else "BIT"
          return .builtin words (← precision) ""
      | "TIMESTAMP" | "TIME" =>
        bare do
          let size ← precision
          return .builtin keyword size (← timeZone)
      | "TIMESTAMPTZ" | "TIMETZ" => bare do return .builtin keyword (← precision) ""
      | "ENUM" | "SET" => bare do return .builtin keyword (some (← labels)) ""
      | "ARRAY" => none
      | _ => customType (.word value keyword :: ts)
  | .quotedName value :: ts => customType (.quotedName value :: ts)
  | _ => none

/-- A pair of square brackets, with a size at will. -/
def arrayBrackets : Parser (Option Unit) := do
  if ← tryOperator "[" then
    let _ ← attempt count
    operator "]"
    return some ()
  return none

def dataType : Parser DataType := do
  let element ← elementType
  let dims ← many arrayBrackets
  return dims.foldl (fun type _ => .array type) element

end JpaScaffold.Sql.Parser
