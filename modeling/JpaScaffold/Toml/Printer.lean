import JpaScaffold.Toml.Reader

/-!
Writing a document. Plain values come first, then the tables, each under its header. Strings take
the form that needs no escapes, and arrays of two or more items have one item on a line.
-/
namespace JpaScaffold.Toml

namespace Printer

def hexDigit (n : Nat) : Char := "0123456789ABCDEF".toList.getD n '0'

/-- A character inside quotation marks. In a text of several lines a line end stands for itself. -/
def escaped (block : Bool) (c : Char) : List Char :=
  match c with
  | '\x08' => ['\\', 'b']
  | '\t' => ['\\', 't']
  | '\n' => if block then ['\n'] else ['\\', 'n']
  | '\x0c' => ['\\', 'f']
  | '\r' => ['\\', 'r']
  | '"' => ['\\', '"']
  | '\\' => ['\\', '\\']
  | c =>
    if c.val < 0x20 || c.val == 0x7f then
      ['\\', 'u', '0', '0', hexDigit (c.toNat / 16), hexDigit (c.toNat % 16)]
    else [c]

/-- The text between apostrophes can hold a character as it is. -/
def isLiteral (c : Char) : Bool := isPlain c || c == '\n'

def longestQuotes (cs : List Char) : Nat :=
  ((cs.splitOnP (· != '\'')).map List.length).foldl max 0

/-- The text is written between apostrophes: it has a quotation mark or a backslash, no character
that needs an escape, and no apostrophes that would end it. -/
def prefersLiteral (cs : List Char) : Bool :=
  (cs.contains '"' || cs.contains '\\') && cs.all isLiteral && longestQuotes cs < 3 &&
    cs.getLast? != some '\''

def string (text : String) : List Char :=
  let cs := text.toList
  let block := cs.contains '\n'
  if prefersLiteral cs then
    let quotes := if block || cs.contains '\'' then ['\'', '\'', '\''] else ['\'']
    quotes ++ (if block then ['\n'] else []) ++ cs ++ quotes
  else
    let quotes := if block then ['"', '"', '"'] else ['"']
    quotes ++ (if block then ['\n'] else []) ++ cs.flatMap (escaped block) ++ quotes

/-- The characters that a name between apostrophes may hold. -/
def isNarrow (c : Char) : Bool := isPlain c && c != '\'' && c.val ≤ 0xff

def key (text : String) : List Char :=
  let cs := text.toList
  if !cs.isEmpty && cs.all Reader.isBare then cs
  else if (cs.contains '"' || cs.contains '\\') && cs.all isNarrow then ['\''] ++ cs ++ ['\'']
  else ['"'] ++ cs.flatMap (escaped false) ++ ['"']

mutual

/-- A value on one line, but for the arrays in it. -/
def value : Value → List Char
  | .string text => string text
  | .integer n => (toString n).toList
  | .float => ['0', '.', '0']
  | .boolean b => (toString b).toList
  | .date => "1970-01-01".toList
  | .array [] => ['[', ']']
  | .array [v] => '[' :: value v ++ [']']
  | .array (v :: w :: vs) => '[' :: '\n' :: items (v :: w :: vs) ++ [']']
  | .table [] => ['\x7b', '\x7d']
  | .table (e :: es) => '\x7b' :: ' ' :: entries (e :: es) ++ [' ', '\x7d']

def items : List Value → List Char
  | [] => []
  | v :: vs => "    ".toList ++ value v ++ ",\n".toList ++ items vs

def entries : List (String × Value) → List Char
  | [] => []
  | [(k, v)] => key k ++ " = ".toList ++ value v
  | (k, v) :: e :: es => key k ++ " = ".toList ++ value v ++ ", ".toList ++ entries (e :: es)

end

def entry (e : String × Value) : List Char := key e.1 ++ " = ".toList ++ value e.2 ++ ['\n']

def table (name : String) (t : Entries) : List Char :=
  '[' :: key name ++ ']' :: '\n' :: t.flatMap entry

def table? (e : String × Value) : Option (List Char) := e.2.table?.map (table e.1)

/-- The parts of a document: its plain values, if there are any, and its tables. -/
def parts (t : Entries) : List (List Char) :=
  let plain := t.filter fun e => !e.2.isTable
  (if plain.isEmpty then [] else [plain.flatMap entry]) ++ t.filterMap table?

end Printer

/-- The document that writes a table. An empty line divides its parts. -/
def print (t : Entries) : String := String.ofList (['\n'].intercalate (Printer.parts t))

end JpaScaffold.Toml
