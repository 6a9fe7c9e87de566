/-!
The statements of a script as trees. Of expressions and of statements that create no table, nothing
is kept.
-/
namespace JpaScaffold.Sql

/-- A name, and the quote it was written in. -/
structure Ident where
  value : String
  quote : Option Char
  deriving DecidableEq

/-- The type of a column. -/
inductive DataType where
  /-- A type of the language: its words, the text of its argument, and the words behind it. -/
  | builtin (words : String) (argument : Option String) (suffix : String)
  /-- A type by its name, with the texts of its modifiers. -/
  | custom (name : List Ident) (modifiers : List String)
  | array (element : DataType)
  deriving DecidableEq

inductive ColumnOption where
  | null
  | notNull
  | defaultValue
  | primaryKey
  | unique
  | references
  | check
  | comment
  | generated
  | characterSet
  deriving DecidableEq

structure ColumnDef where
  name : Ident
  type : DataType
  options : List ColumnOption
  deriving DecidableEq

/-- A constraint of a table. -/
inductive Constraint where
  | primaryKey (columns : List Ident)
  | unique (columns : List Ident)
  | foreignKey (columns : List Ident)
  | check
  deriving DecidableEq

structure CreateTable where
  /-- The names in front of the table's name. -/
  qualifier : List Ident
  name : Ident
  columns : List ColumnDef
  constraints : List Constraint
  deriving DecidableEq

inductive Statement where
  | createTable (statement : CreateTable)
  | other
  deriving DecidableEq

/-- The text of a name inside quotes. A quote is doubled unless a backslash stands before it; two
quotes that follow each other stand for themselves. -/
def escapedName (quote : Char) (previous : Char) : List Char → List Char
  | [] => []
  | [c] => if c = quote ∧ previous ≠ '\\' then [c, c] else [c]
  | c :: d :: rest =>
    if c = quote then
      if previous = '\\' then c :: escapedName quote previous (d :: rest)
      else if d = quote then c :: c :: escapedName quote c rest
      else c :: c :: escapedName quote c (d :: rest)
    else c :: escapedName quote c (d :: rest)

def Ident.text (i : Ident) : String :=
  match i.quote with
  | some q => String.ofList (q :: escapedName q '\x00' i.value.toList ++ [q])
  | none => i.value

def DataType.text : DataType → String
  | builtin words argument suffix =>
    words ++ (match argument with
      | some a => "(" ++ a ++ ")"
      | none => "") ++ suffix
  | custom name modifiers =>
    ".".intercalate (name.map Ident.text) ++
      (if modifiers.isEmpty then "" else "(" ++ ", ".intercalate modifiers ++ ")")
  | array element => element.text ++ "[]"

def DataType.isArray : DataType → Bool
  | array _ => true
  | _ => false

end JpaScaffold.Sql
