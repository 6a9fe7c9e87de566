import JpaScaffold.Java.Layout.Scope
import JpaScaffold.Java.SourceError
import JpaScaffold.Text.Trim

/-!
The state of a layout: the lines written so far, the open blocks, the imports that wait to be
sorted, and the statement that is being read. Every operation here writes whole lines or adds one
token to the statement.
-/
namespace JpaScaffold.Java.Layout

structure State where
  /-- The lines written, in order. -/
  out : List (List Char) := []
  /-- The innermost open block. -/
  scope : Scope := ⟨.file, 0, false, false⟩
  /-- The blocks around it, innermost first. -/
  outer : List Scope := []
  /-- The import statements that are not written yet, in order. -/
  imports : List (List Char) := []
  /-- The tokens of the statement that is being read. -/
  pending : List Token := []
  /-- The brackets open in that statement, innermost first, with their lines. -/
  nesting : List (Bracket × Nat) := []
  /-- That statement has an assignment outside its brackets. -/
  assigned : Bool := false
  /-- A closed block that the next line continues. -/
  carry : Option (List Char) := none
  deriving DecidableEq

/-- The text behind the closed block that it continues. -/
def withCarry (carry : Option (List Char)) (text : List Char) : List Char :=
  match carry with
  | none => text
  | some closed => if text.isEmpty then closed else closed ++ ' ' :: text

/-- The text of a block's header with a brace behind it. -/
def withBrace (header brace : List Char) : List Char :=
  if header.isEmpty then brace else header ++ ' ' :: brace

def isStaticImport (line : List Char) : Bool := "import static ".toList.isPrefixOf line

/-- The order of imports: static ones first, then by their text. -/
def importLE (a b : List Char) : Bool :=
  match isStaticImport a, isStaticImport b with
  | true, false => true
  | false, true => false
  | _, _ => !decide (b < a)

/-- The imports as they are written: sorted, each once. -/
def sortedImports (imports : List (List Char)) : List (List Char) :=
  (imports.mergeSort importLE).eraseReps

/-- The lines with `text` added to the last one. -/
def appendToLast (text : List Char) : List (List Char) → List (List Char)
  | [] => []
  | [last] => [last ++ text]
  | line :: rest => line :: appendToLast text rest

/-- The pieces of a statement that is broken before each call of a chain: a piece ends before a
point that follows a closing parenthesis outside all brackets. -/
def chainPieces (depth : Nat) : List Token → List Token × List (List Token)
  | [] => ([], [])
  | [t] => ([t], [])
  | t :: dot :: rest =>
    let depth' :=
      if t.isPunct ['('] || t.isPunct ['['] || t.isPunct ['{'] then depth + 1
      else if t.isPunct [')'] || t.isPunct [']'] || t.isPunct ['}'] then depth - 1
      else depth
    let (first, more) := chainPieces depth' (dot :: rest)
    if depth' = 0 && t.isPunct [')'] && dot.isPunct ['.'] then ([t], first :: more)
    else (t :: first, more)

/-- The lines of a block comment: a line that starts with a star is set one column in. -/
def commentLines (text : List Char) : List (List Char) :=
  match (Text.lines text).map Text.trim with
  | [] => []
  | first :: rest => first :: rest.map fun l => if l.head? = some '*' then ' ' :: l else l

/-- The block comment that a line comment becomes inside a statement. -/
def inlineComment (text : List Char) : List Char :=
  "/* ".toList ++ Text.trim (text.dropWhile (· == '/')) ++ " */".toList

namespace State

/-- How far the members of the innermost block are set in. -/
def indent (s : State) (o : Options) : Nat := s.outer.length * o.tabWidth

/-- One more line at the indentation of the innermost block. -/
def pushLine (s : State) (o : Options) (text : List Char) : State :=
  { s with out := s.out ++ [List.replicate (s.indent o) ' ' ++ text] }

def pushLines (s : State) (o : Options) (lines : List (List Char)) : State :=
  lines.foldl (fun s l => s.pushLine o l) s

def pushGap (s : State) : State := { s with out := s.out ++ [[]] }

/-- The waiting imports are written, behind an empty line if anything stands before them. -/
def flushImports (s : State) : State :=
  if s.imports.isEmpty then s
  else
    { s with
      out := s.out ++ (if s.out.isEmpty then [] else [[]]) ++ sortedImports s.imports
      imports := [] }

/-- The gap before a member: between the members of a file or a type stands an empty line, but none
between fields without comments and annotations, and none between statements. -/
def beginElement (s : State) (field : Bool) : State :=
  match s.scope.kind with
  | .file =>
    let s := s.flushImports
    if s.out.isEmpty then s else s.pushGap
  | .type | .enum => if field && s.scope.afterField then s else s.pushGap
  | .code => s

def decorate (s : State) (o : Options) (lines : List (List Char)) : State :=
  let s := if s.scope.inElement then s else s.beginElement false
  let s := s.pushLines o lines
  { s with scope := { s.scope with inElement := true } }

def emitMember (s : State) (o : Options) (lines : List (List Char)) (field : Bool) : State :=
  let decorated := s.scope.inElement
  let s := if decorated then s else s.beginElement field
  let s := s.pushLines o lines
  { s with scope := { s.scope with inElement := false, afterField := field && !decorated } }

/-- The statement that is being read, as one line. -/
def text (s : State) : List Char := withCarry s.carry (joinTokens s.pending)

/-- The statement that is being read, as it is written: on one line if that is wide enough or if
there is no chain of calls, else broken before each call. -/
def statementLines (s : State) (o : Options) : List (List Char) :=
  if s.indent o + s.text.length ≤ o.printWidth then [s.text]
  else
    let (first, more) := chainPieces 0 s.pending
    withCarry s.carry (joinTokens first) ::
      more.map fun piece => List.replicate o.tabWidth ' ' ++ joinTokens piece

/-- The statement was written. -/
def clearStatement (s : State) : State :=
  { s with pending := [], assigned := false, carry := none }

def danglingAt (pending : List Token) : SourceError :=
  ⟨(pending.head?.map Token.line).getD 0, .dangling (joinTokens pending)⟩

/-- A line comment: inside a statement it becomes a block comment, behind a statement on the same
line it stays there, else it has a line of its own. -/
def lineComment (s : State) (o : Options) (t : Token) (previous : Option Token) : State :=
  let text := Text.trimEnd t.text
  if !s.pending.isEmpty then
    let inline := { t with kind := .blockComment, text := inlineComment text }
    { s with pending := s.pending ++ [inline] }
  else
    let trailing := match previous with
      | some p => p.line == t.line
      | none => false
    if trailing && s.scope.kind == .file && !s.imports.isEmpty then
      { s with imports := appendToLast (' ' :: text) s.imports }
    else if trailing && !s.out.isEmpty then
      { s with out := appendToLast (' ' :: text) s.out }
    else s.decorate o [text]

/-- The statement is complete. Imports of a file wait to be sorted. -/
def endStatement (s : State) (o : Options) : State :=
  let isImport := match s.pending with
    | t :: _ => t.isTheWord "import".toList
    | [] => false
  if s.scope.kind == .file && isImport then
    { s.clearStatement with imports := s.imports ++ [s.text] }
  else
    let field := (s.scope.kind == .type || s.scope.kind == .enum) && isField s.pending
    s.clearStatement.emitMember o (s.statementLines o) field

/-- A block opens behind the statement read so far. -/
def openBlock (s : State) (o : Options) (line : Nat) : State :=
  let kind := blockKind s.pending
  let s := s.clearStatement.emitMember o [withBrace s.text ['{']] false
  { s with scope := ⟨kind, line, false, false⟩, outer := s.scope :: s.outer }

/-- An empty block behind the statement read so far. -/
def emptyBlock (s : State) (o : Options) (next : Option Token) : State :=
  let text := withBrace s.text ['{', '}']
  if isContinuation next then { s.clearStatement with carry := some text }
  else s.clearStatement.emitMember o [text] false

/-- The innermost block closes. Only an enumeration may end without a semicolon. -/
def closeBlock (s : State) (o : Options) (line : Nat) (next : Option Token) :
    Except SourceError State :=
  match s.outer with
  | [] => .error ⟨line, .unbalanced .curly⟩
  | around :: outer =>
    if !s.pending.isEmpty && s.scope.kind != .enum then .error (danglingAt s.pending)
    else
      let s :=
        if s.pending.isEmpty then s
        else s.clearStatement.emitMember o (s.statementLines o) true
      let s := { s with scope := { around with afterField := false }, outer := outer }
      .ok (if isContinuation next then { s with carry := some ['}'] } else s.pushLine o ['}'])

def opens? (t : Token) : Option Bracket :=
  if t.isPunct ['('] then some .paren
  else if t.isPunct ['['] then some .square
  else if t.isPunct ['{'] then some .curly
  else none

def closes? (t : Token) : Option Bracket :=
  if t.isPunct [')'] then some .paren
  else if t.isPunct [']'] then some .square
  else if t.isPunct ['}'] then some .curly
  else none

def pushToken (s : State) (t : Token) : Except SourceError State :=
  match opens? t, closes? t with
  | some b, _ => .ok { s with nesting := (b, t.line) :: s.nesting, pending := s.pending ++ [t] }
  | none, some b =>
    match s.nesting with
    | (opened, _) :: rest =>
      if opened = b then .ok { s with nesting := rest, pending := s.pending ++ [t] }
      else .error ⟨t.line, .unbalanced b⟩
    | [] => .error ⟨t.line, .unbalanced b⟩
  | none, none =>
    .ok { s with
      assigned := s.assigned || (t.isPunct ['='] && s.nesting.isEmpty)
      pending := s.pending ++ [t] }

end State

end JpaScaffold.Java.Layout
