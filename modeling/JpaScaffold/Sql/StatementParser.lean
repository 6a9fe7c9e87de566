import JpaScaffold.Sql.ExpressionParser

/-!
Parsing statements. A CREATE TABLE statement becomes a tree; other statements are recognised and
passed over.
-/
namespace JpaScaffold.Sql.Parser

/-- What happens to a row when the row it refers to goes. -/
def referentialAction : Parser Unit := do
  let known := [["RESTRICT"], ["CASCADE"], ["SET", "NULL"], ["NO", "ACTION"], ["SET", "DEFAULT"]]
  for ks in known do
    if ← tryKeywords ks then return
  failure

def onEvent (event : String) : Parser Bool := do
  if ← tryKeywords ["ON", event] then
    referentialAction
    return true
  return false

/-- The actions behind a reference, one for each event at most. -/
def referentialActions : Parser Unit := do
  if ← onEvent "DELETE" then
    let _ ← onEvent "UPDATE"
  else if ← onEvent "UPDATE" then
    let _ ← onEvent "DELETE"

def oneOf (alternatives : List (List String)) : Parser Bool := do
  for ks in alternatives do
    if ← tryKeywords ks then return true
  return false

def characteristics : Parser Unit :=
  anyOrder [
    oneOf [["NOT", "DEFERRABLE"], ["DEFERRABLE"]],
    oneOf [["INITIALLY", "DEFERRED"], ["INITIALLY", "IMMEDIATE"]],
    oneOf [["ENFORCED"], ["NOT", "ENFORCED"]]]

def indexKind : Parser Unit := do
  guard (← oneOf [["BTREE"], ["HASH"]])

def indexOption : Parser (Option Unit) := do
  if ← tryKeywords ["USING"] then
    indexKind
    return some ()
  if ← tryKeywords ["COMMENT"] then
    match ← next with
    | .string _ => return some ()
    | _ => failure
  return none

/-- The columns of a key, with the name and the kind of its index before them. -/
def keyColumns : Parser (List Ident) := do
  let _ ← attempt ident
  if ← tryKeywords ["USING"] then indexKind
  let columns ← columnList
  let _ ← many indexOption
  characteristics
  return columns

def condition : Parser Unit := parenthesized expression

/-- The body of a constraint, if one stands in front. -/
def constraintBody : Parser (Option Constraint) := do
  if ← tryKeywords ["UNIQUE"] then
    if ← oneOf [["KEY"], ["INDEX"]] then failure
    let _ ← oneOf [["NULLS", "DISTINCT"], ["NULLS", "NOT", "DISTINCT"]]
    return some (.unique (← keyColumns))
  if ← tryKeywords ["PRIMARY"] then
    keywords ["KEY"]
    return some (.primaryKey (← keyColumns))
  if ← tryKeywords ["FOREIGN"] then
    keywords ["KEY"]
    let columns ← columnList
    keywords ["REFERENCES"]
    let _ ← objectName
    let _ ← columnList
    referentialActions
    characteristics
    return some (.foreignKey columns)
  if ← tryKeywords ["CHECK"] then
    condition
    return some .check
  return none

/-- A constraint of a table, if one stands in front. -/
def tableConstraint : Parser (Option Constraint) := do
  if ← tryKeywords ["CONSTRAINT"] then
    let _ ← ident
    match ← constraintBody with
    | some c => return some c
    | none => failure
  constraintBody

def signedNumber : Parser Unit := do
  unless ← tryOperator "+" do
    let _ ← tryOperator "-"
  match ← next with
  | .number _ => pure ()
  | _ => failure

/-- Takes a number behind the keywords, if they stand in front. -/
def numberBehind (ks : List String) : Parser Bool := do
  if ← tryKeywords ks then
    signedNumber
    return true
  return false

/-- Takes a number behind the first of the sequences of keywords that stands in front. -/
def numberBehindOneOf (alternatives : List (List String)) : Parser Unit := do
  for ks in alternatives do
    if ← numberBehind ks then return

/-- The options of a sequence, each at will, in this order. -/
def sequenceOptions : Parser Unit := do
  numberBehindOneOf [["INCREMENT", "BY"], ["INCREMENT"]]
  unless ← numberBehind ["MINVALUE"] do
    let _ ← tryKeywords ["NO", "MINVALUE"]
  unless ← numberBehind ["MAXVALUE"] do
    let _ ← tryKeywords ["NO", "MAXVALUE"]
  numberBehindOneOf [["START", "WITH"], ["START"]]
  numberBehindOneOf [["CACHE"]]
  let _ ← oneOf [["NO", "CYCLE"], ["CYCLE"]]

/-- An identity column, with the options of its sequence. -/
def identityOptions : Parser (Option ColumnOption) := do
  let _ ← optionalParens sequenceOptions
  return some .generated

def generatedColumn : Parser (Option ColumnOption) := do
  if ← tryKeywords ["ALWAYS", "AS", "IDENTITY"] then identityOptions
  else if ← tryKeywords ["BY", "DEFAULT", "AS", "IDENTITY"] then identityOptions
  else if ← tryKeywords ["ALWAYS", "AS"] then
    match ← optionalParens expression with
    | some () =>
      keywords ["STORED"]
      return some .generated
    | none => return none
  else return none

/-- Words of other dialects that are passed over behind the options of a column. -/
def passedOver (words : List (List String)) : Parser Unit := do
  for ks in words do
    let _ ← tryKeywords ks

def columnOption : Parser (Option ColumnOption) := do
  if ← tryKeywords ["CHARACTER", "SET"] then
    let _ ← objectName
    return some .characterSet
  if ← tryKeywords ["NOT", "NULL"] then return some .notNull
  if ← tryKeywords ["COMMENT"] then
    match ← next with
    | .string _ => return some .comment
    | _ => failure
  if ← tryKeywords ["NULL"] then return some .null
  if ← tryKeywords ["DEFAULT"] then
    expression
    return some .defaultValue
  if ← tryKeywords ["PRIMARY", "KEY"] then
    characteristics
    return some .primaryKey
  if ← tryKeywords ["UNIQUE"] then
    characteristics
    return some .unique
  if ← tryKeywords ["REFERENCES"] then
    let _ ← objectName
    let _ ← optionalParens (commaSeparated ident)
    referentialActions
    characteristics
    return some .references
  if ← tryKeywords ["CHECK"] then
    condition
    return some .check
  passedOver [["AUTO_INCREMENT"], ["AUTOINCREMENT"], ["ASC"], ["DESC"], ["ON", "UPDATE"]]
  if ← tryKeywords ["GENERATED"] then generatedColumn
  else
    passedOver [["AS"], ["IDENTITY"]]
    return none

/-- An option of a column with the name of its constraint before it. -/
def namedColumnOption : Parser (Option ColumnOption) := do
  if ← tryKeywords ["CONSTRAINT"] then
    let _ ← ident
    match ← columnOption with
    | some o => return some o
    | none => failure
  columnOption

def columnDef : Parser ColumnDef := do
  let name ← ident
  let type ← dataType
  if ← tryKeywords ["COLLATE"] then
    let _ ← objectName
  return ⟨name, type, ← many namedColumnOption⟩

/-- An element of a table: a constraint or a column, which a word starts. -/
def element : Parser (ColumnDef ⊕ Constraint) := do
  match ← tableConstraint with
  | some c => return .inr c
  | none =>
    match ← peek with
    | some (.word ..) | some (.quotedName _) => return .inl (← columnDef)
    | _ => failure

def elements : Parser (List ColumnDef × List Constraint) := do
  if ← tryOperator "(" then
    if ← tryOperator ")" then return ([], [])
    let es ← commaSeparated element
    operator ")"
    return (es.filterMap Sum.getLeft?, es.filterMap Sum.getRight?)
  return ([], [])

def assignment : Parser Unit := do
  let _ ← ident
  operator "="
  expression

def tableOptions : Parser Unit := do
  let _ ← tryKeywords ["WITHOUT", "ROWID"]
  if ← tryKeywords ["WITH"] then
    operator "("
    unless ← tryOperator ")" do
      let _ ← commaSeparated assignment
      operator ")"
  if ← tryKeywords ["ENGINE"] then
    operator "="
    match ← next with
    | .word .. | .quotedName _ => let _ ← optionalParens (commaSeparated ident)
    | _ => failure
  if ← tryKeywords ["AUTO_INCREMENT"] then
    let _ ← tryOperator "="
    let _ ← count
  if ← tryKeywords ["PARTITION", "BY"] then expression
  if ← tryKeywords ["DEFAULT", "CHARSET"] then
    operator "="
    let _ ← ident
  if ← tryKeywords ["COLLATE"] then
    operator "="
    let _ ← ident
  if ← tryKeywords ["ON", "COMMIT"] then
    guard (← oneOf [["DELETE", "ROWS"], ["PRESERVE", "ROWS"], ["DROP"]])
  let _ ← tryKeywords ["STRICT"]
  if ← tryKeywords ["COMMENT"] then
    let _ ← tryOperator "="
    match ← next with
    | .string _ => pure ()
    | _ => failure
  if ← tryKeywords ["AS"] then query

/-- The table that another one is made from. A token that is no name is passed over. -/
def modelTable : Parser Unit := do
  unless (← attempt objectName).isSome do
    skip

def createTable : Parser Statement := do
  let _ ← tryKeywords ["IF", "NOT", "EXISTS"]
  let first ← ident
  let more ← dottedIdents
  if ← oneOf [["LIKE"], ["ILIKE"]] then modelTable
  if ← tryKeywords ["CLONE"] then modelTable
  let (columns, constraints) ← elements
  tableOptions
  let names := first :: more
  return .createTable ⟨names.dropLast, more.getLast?.getD first, columns, constraints⟩

def createIndex : Parser Statement := do
  let _ ← tryKeywords ["CONCURRENTLY"]
  let _ ← tryKeywords ["IF", "NOT", "EXISTS"]
  unless ← tryKeywords ["ON"] do
    let _ ← objectName
    keywords ["ON"]
  let _ ← objectName
  if ← tryKeywords ["USING"] then
    let _ ← ident
  let _ ← parenthesized (commaSeparated do
    expression
    let _ ← oneOf [["ASC"], ["DESC"]]
    let _ ← oneOf [["NULLS", "FIRST"], ["NULLS", "LAST"]])
  if ← tryKeywords ["WHERE"] then expression
  return .other

def createView : Parser Statement := do
  let _ ← tryKeywords ["IF", "NOT", "EXISTS"]
  let _ ← objectName
  let _ ← optionalParens (commaSeparated ident)
  keywords ["AS"]
  query
  return .other

/-- The statement behind CREATE TYPE: an enumeration. -/
def createType : Parser Statement := do
  let _ ← objectName
  keywords ["AS", "ENUM"]
  let _ ← labels
  return .other

def create : Parser Statement := do
  let orReplace ← tryKeywords ["OR", "REPLACE"]
  let _ ← tryKeywords ["OR", "ALTER"]
  let _ ← tryKeywords ["LOCAL"]
  let _ ← tryKeywords ["GLOBAL"]
  let _ ← tryKeywords ["TRANSIENT"]
  let _ ← oneOf [["TEMP"], ["TEMPORARY"]]
  if ← tryKeywords ["TABLE"] then createTable
  else if ← oneOf [["MATERIALIZED", "VIEW"], ["VIEW"]] then createView
  else if orReplace then failure
  else if ← oneOf [["INDEX"], ["UNIQUE", "INDEX"]] then createIndex
  else if ← tryKeywords ["TYPE"] then createType
  else if ← oneOf [["SCHEMA"], ["EXTENSION"], ["DATABASE"]] then
    let _ ← tryKeywords ["IF", "NOT", "EXISTS"]
    let _ ← objectName
    return .other
  else if ← tryKeywords ["SEQUENCE"] then
    let _ ← tryKeywords ["IF", "NOT", "EXISTS"]
    let _ ← objectName
    sequenceOptions
    return .other
  else failure

def drop : Parser Statement := do
  guard (← oneOf [["TABLE"], ["VIEW"], ["INDEX"], ["SCHEMA"], ["SEQUENCE"], ["DATABASE"], ["TYPE"],
    ["MATERIALIZED", "VIEW"]])
  let _ ← tryKeywords ["IF", "EXISTS"]
  let _ ← commaSeparated objectName
  let _ ← oneOf [["CASCADE"], ["RESTRICT"]]
  return .other

def insert : Parser Statement := do
  keywords ["INTO"]
  let _ ← objectName
  let _ ← optionalParens (commaSeparated ident)
  query
  return .other

def delete : Parser Statement := do
  keywords ["FROM"]
  let _ ← objectName
  if ← tryKeywords ["WHERE"] then expression
  return .other

def update : Parser Statement := do
  let _ ← objectName
  keywords ["SET"]
  let _ ← commaSeparated assignment
  if ← tryKeywords ["WHERE"] then expression
  return .other

def comment : Parser Statement := do
  keywords ["ON"]
  guard (← oneOf [["COLUMN"], ["TABLE"], ["EXTENSION"], ["SCHEMA"], ["DATABASE"], ["USER"],
    ["ROLE"]])
  let _ ← objectName
  keywords ["IS"]
  unless ← tryKeywords ["NULL"] do
    match ← next with
    | .string _ => pure ()
    | _ => failure
  return .other

def truncate : Parser Statement := do
  let _ ← tryKeywords ["TABLE"]
  let _ ← commaSeparated objectName
  let _ ← oneOf [["CASCADE"], ["RESTRICT"]]
  return .other

/-- The statement behind ALTER TABLE, which adds or drops columns and constraints. -/
def alterTable : Parser Statement := do
  let _ ← tryKeywords ["IF", "EXISTS"]
  let _ ← tryKeywords ["ONLY"]
  let _ ← objectName
  let _ ← commaSeparated do
    if ← tryKeywords ["ADD"] then
      let _ ← tryKeywords ["COLUMN"]
      let _ ← tryKeywords ["IF", "NOT", "EXISTS"]
      let _ ← element
    else
      keywords ["DROP"]
      let _ ← oneOf [["COLUMN"], ["CONSTRAINT"]]
      let _ ← tryKeywords ["IF", "EXISTS"]
      let _ ← ident
      let _ ← oneOf [["CASCADE"], ["RESTRICT"]]
  return .other

def statement : Parser Statement := do
  if ← tryKeywords ["CREATE"] then create
  else if ← tryKeywords ["DROP"] then drop
  else if ← tryKeywords ["INSERT"] then insert
  else if ← tryKeywords ["DELETE"] then delete
  else if ← tryKeywords ["UPDATE"] then update
  else if ← tryKeywords ["COMMENT"] then comment
  else if ← tryKeywords ["TRUNCATE"] then truncate
  else if ← tryKeywords ["ALTER", "TABLE"] then alterTable
  else
    query
    return .other

def skipSemicolons (ts : List Token) : List Token := ts.dropWhile (·.isOperator ";")

/-- Statements with semicolons between them. END may stand behind a statement; what follows it is
not read. -/
def statements (ts : List Token) : Option (List Statement) :=
  if (skipSemicolons ts).isEmpty then some []
  else
    match statement (skipSemicolons ts) with
    | none => none
    | some (s, []) => some [s]
    | some (s, t :: rest) =>
      if t.isKeyword "END" then some [s]
      else if t.isOperator ";" && rest.length < ts.length then (statements rest).map (s :: ·)
      else none
termination_by ts.length
decreasing_by simp_all

end Parser

/-- The statements of a text, or nothing if one of them is malformed. -/
def parseStatements (text : String) : Option (List Statement) :=
  (tokenize text.toList).bind Parser.statements

end JpaScaffold.Sql
