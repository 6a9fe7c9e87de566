import JpaScaffold.Toml.Document
import JpaScaffold.Toml.Scalar

/-!
Reading a document: names, values, and the lines they stand on.
-/
namespace JpaScaffold.Toml

namespace Reader

def spaces : Reader Unit := fun cs => some ((), skipSpaces cs)

/-- Takes the characters if they stand in front, and answers whether they did. -/
def accept (text : String) : Reader Bool := fun cs =>
  if text.toList.isPrefixOf cs then some (true, cs.drop text.length) else some (false, cs)

def expect (text : String) : Reader Unit := do
  guard (← accept text)

/-- A character of names without quotes. -/
def isBare (c : Char) : Bool := c.isAlphanum || c == '_' || c == '-'

def keyPart : Reader String := fun
  | '"' :: rest => (basicTail rest).map fun (t, r) => (String.ofList t, r)
  | '\'' :: rest => (literalTail rest).map fun (t, r) => (String.ofList t, r)
  | cs =>
    if (cs.takeWhile isBare).isEmpty then none
    else some (String.ofList (cs.takeWhile isBare), cs.dropWhile isBare)

/-- The parts of a dotted name. `fuel` bounds their number. -/
def keyParts : Nat → Reader (List String)
  | 0 => failure
  | fuel + 1 => do
    spaces
    let part ← keyPart
    spaces
    if ← accept "." then return part :: (← keyParts fuel)
    return [part]

def key : Reader (List String) := fun cs => keyParts (cs.length + 1) cs

/-- What follows the comment that may stand in front. -/
def skipComment : List Char → List Char
  | '#' :: rest => rest.dropWhile isPlain
  | cs => cs

/-- Passes over spaces, line ends and comments. `fuel` bounds the lines. -/
def gapLines (cs : List Char) : Nat → List Char
  | 0 => cs
  | fuel + 1 =>
    match newline? (skipComment (skipSpaces cs)) with
    | some rest => gapLines rest fuel
    | none => skipComment (skipSpaces cs)

/-- Passes over spaces, line ends and comments. -/
def gap : Reader Unit := fun cs => some ((), gapLines cs (cs.length + 1))

/-- The items of an array up to its closing bracket. A comma may stand behind the last one. `fuel`
bounds their number. -/
def items (value : Reader Value) : Nat → Reader (List Value)
  | 0 => failure
  | fuel + 1 => do
    gap
    if ← accept "]" then return []
    let v ← value
    gap
    if ← accept "," then return v :: (← items value fuel)
    expect "]"
    return [v]

/-- The entries of a table between braces up to the closing one. `fuel` bounds their number. -/
def entries (value : Reader Value) : Nat → Reader (List (List String × Value))
  | 0 => failure
  | fuel + 1 => do
    let k ← key
    expect "="
    spaces
    let v ← value
    spaces
    if ← accept "," then return (k, v) :: (← entries value fuel)
    expect "\x7d"
    return [(k, v)]

def inlineTable (value : Reader Value) : Reader Value := fun cs =>
  ((do
    spaces
    if ← accept "\x7d" then return []
    entries value (cs.length + 1)) cs).bind fun (es, rest) =>
      (ofEntries es).map fun t => (.table t, rest)

/-- A value whose arrays and tables are nested at most so deep. -/
def value : Nat → Reader Value
  | 0 => failure
  | depth + 1 => fun
    | '[' :: rest => (items (value depth) (rest.length + 1) rest).map fun (vs, r) => (.array vs, r)
    | '\x7b' :: rest => inlineTable (value depth) rest
    | '"' :: rest => (string ('"' :: rest)).map fun (s, r) => (.string s, r)
    | '\'' :: rest => (string ('\'' :: rest)).map fun (s, r) => (.string s, r)
    | cs => scalar cs

/-- How deep arrays and tables may be nested in a value. -/
def depthLimit : Nat := 80

def line : Reader Line := do
  if ← accept "[[" then
    let path ← key
    expect "]]"
    return .tables path
  if ← accept "[" then
    let path ← key
    expect "]"
    return .table path
  let k ← key
  expect "="
  spaces
  return .entry k (← value depthLimit)

/-- What follows the end of a line, in front of which spaces and a comment may stand. -/
def lineEnd (cs : List Char) : Option (List Char) :=
  match skipComment (skipSpaces cs) with
  | [] => some []
  | cs => newline? cs

/-- The lines of a document. `fuel` bounds their number. -/
def lines (cs : List Char) : Nat → Option (List Line)
  | 0 => none
  | fuel + 1 =>
    match gapLines cs (cs.length + 1) with
    | [] => some []
    | cs =>
      (line cs).bind fun (l, rest) =>
        (lineEnd rest).bind fun rest => (lines rest fuel).map (l :: ·)

end Reader

/-- The table that a document writes, or nothing if it is malformed. A mark of the byte order may
stand in front. -/
def parse (text : String) : Option Entries :=
  let cs := match text.toList with
    | '\uFEFF' :: rest => rest
    | cs => cs
  (Reader.lines cs (cs.length + 1)).bind ofLines

end JpaScaffold.Toml
