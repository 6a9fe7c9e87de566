import JpaScaffold.Proofs.Layout.ChainPoints
import JpaScaffold.Proofs.Layout.Emission

/-!
# The layout as a loop

The layout once more, as a loop over the positions of the tokens: the open blocks lie on a stack, and
whatever is looked up on the stack or among the tokens is looked up by position. Where nothing is
found there, the loop stops; it also stops where the source is wrong.
-/
namespace JpaScaffold.Java.Layout

/-- A layout in progress whose open blocks lie on a stack, the innermost one last. -/
structure Machine where
  out : List (List Char) := []
  scopes : List Scope := [⟨.file, 0, false, false⟩]
  imports : List (List Char) := []
  pending : List Token := []
  nesting : List (Bracket × Nat) := []
  assigned : Bool := false
  carry : Option (List Char) := none

namespace Machine

def scope (m : Machine) : Except Stop Scope := do
  let top ← minus m.scopes.length 1
  elementAt m.scopes top

def setScope (m : Machine) (scope : Scope) : Except Stop Machine := do
  let top ← minus m.scopes.length 1
  let _ ← elementAt m.scopes top
  return { m with scopes := m.scopes.set top scope }

def indent (m : Machine) (o : Options) : Except Stop Nat := do
  let depth ← minus m.scopes.length 1
  return depth * o.tabWidth

def pushLine (m : Machine) (o : Options) (text : List Char) : Except Stop Machine := do
  let indent ← m.indent o
  return { m with out := m.out ++ [List.replicate indent ' ' ++ text] }

def pushLines (m : Machine) (o : Options) (lines : List (List Char)) : Except Stop Machine :=
  lines.foldlM (fun m line => m.pushLine o line) m

def pushGap (m : Machine) : Machine := { m with out := m.out ++ [[]] }

def flushImports (m : Machine) : Machine :=
  if m.imports.isEmpty then m
  else
    { m with
      out := m.out ++ (if m.out.isEmpty then [] else [[]]) ++ sortedImports m.imports
      imports := [] }

def beginElement (m : Machine) (field : Bool) : Except Stop Machine := do
  let scope ← m.scope
  match scope.kind with
  | .file => return if m.flushImports.out.isEmpty then m.flushImports else m.flushImports.pushGap
  | .type | .enum => return if field && scope.afterField then m else m.pushGap
  | .code => return m

/-- The lines of an element, which begins here unless it has begun. -/
def element (m : Machine) (o : Options) (lines : List (List Char)) (begun field : Bool) :
    Except Stop Machine :=
  if begun then m.pushLines o lines
  else do
    let m ← m.beginElement field
    m.pushLines o lines

def decorate (m : Machine) (o : Options) (lines : List (List Char)) : Except Stop Machine := do
  let scope ← m.scope
  let m ← m.element o lines scope.inElement false
  let scope ← m.scope
  m.setScope { scope with inElement := true }

def emitMember (m : Machine) (o : Options) (lines : List (List Char)) (field : Bool) :
    Except Stop Machine := do
  let before ← m.scope
  let m ← m.element o lines before.inElement field
  let scope ← m.scope
  m.setScope { scope with inElement := false, afterField := field && !before.inElement }

def text (m : Machine) : List Char := withCarry m.carry (joinTokens m.pending)

/-- The lines of a statement that is broken at the given positions. -/
def brokenLines (m : Machine) (o : Options) : List Nat → Except Stop (List (List Char))
  | [] => .ok [m.text]
  | first :: more => do
    let front ← slice m.pending 0 first
    let pieces ← slicesAt m.pending (first :: more)
    return withCarry m.carry (joinTokens front) ::
      pieces.map fun piece => List.replicate o.tabWidth ' ' ++ joinTokens piece

def statementLines (m : Machine) (o : Options) : Except Stop (List (List Char)) := do
  let indent ← m.indent o
  if indent + m.text.length ≤ o.printWidth then return [m.text]
  else
    let breaks ← chainBreaks m.pending
    m.brokenLines o breaks

def clearStatement (m : Machine) : Machine :=
  { m with pending := [], assigned := false, carry := none }

/-- The error for tokens that nothing ends is told by the first of them. -/
def dangling {α : Type} (m : Machine) : Except Stop α := do
  let first ← elementAt m.pending 0
  throw (.source ⟨first.line, .dangling (joinTokens m.pending)⟩)

def lineComment (m : Machine) (o : Options) (t : Token) (previous : Option Token) :
    Except Stop Machine :=
  if !m.pending.isEmpty then .ok { m with pending := m.pending ++ [inlined t] }
  else if isTrailing previous t then do
    let scope ← m.scope
    if scope.kind == .file && !m.imports.isEmpty then
      return { m with imports := appendToLast (' ' :: Text.trimEnd t.text) m.imports }
    else if !m.out.isEmpty then
      return { m with out := appendToLast (' ' :: Text.trimEnd t.text) m.out }
    else m.decorate o [Text.trimEnd t.text]
  else m.decorate o [Text.trimEnd t.text]

def endStatement (m : Machine) (o : Options) : Except Stop Machine := do
  let scope ← m.scope
  if scope.kind == .file && startsImport m.pending then
    return { m.clearStatement with imports := m.imports ++ [m.text] }
  else
    let lines ← m.statementLines o
    m.clearStatement.emitMember o lines
      ((scope.kind == .type || scope.kind == .enum) && isField m.pending)

def openBlock (m : Machine) (o : Options) (line : Nat) : Except Stop Machine := do
  let opened ← m.clearStatement.emitMember o [withBrace m.text ['{']] false
  return { opened with scopes := opened.scopes ++ [⟨blockKind m.pending, line, false, false⟩] }

def emptyBlock (m : Machine) (o : Options) (next : Option Token) : Except Stop Machine :=
  if isContinuation next then
    .ok { m.clearStatement with carry := some (withBrace m.text ['{', '}']) }
  else m.clearStatement.emitMember o [withBrace m.text ['{', '}']] false

/-- A statement without an end is written: the constants of an enumeration. -/
def settle (m : Machine) (o : Options) : Except Stop Machine :=
  if m.pending.isEmpty then .ok m
  else do
    let scope ← m.scope
    if scope.kind != .enum then m.dangling
    else
      let lines ← m.statementLines o
      m.clearStatement.emitMember o lines true

def leave (m : Machine) (o : Options) (next : Option Token) : Except Stop Machine := do
  let m := { m with scopes := m.scopes.dropLast }
  let around ← m.scope
  let m ← m.setScope { around with afterField := false }
  if isContinuation next then return { m with carry := some ['}'] } else m.pushLine o ['}']

/-- The innermost block closes, unless it is the only one. -/
def closeBlock (m : Machine) (o : Options) (line : Nat) (next : Option Token) :
    Except Stop Machine :=
  if m.scopes.length = 1 then .error (.source ⟨line, .unbalanced .curly⟩)
  else do
    let m ← m.settle o
    m.leave o next

def pushToken (m : Machine) (t : Token) : Except Stop Machine :=
  match State.opens? t, State.closes? t with
  | some b, _ => .ok { m with nesting := (b, t.line) :: m.nesting, pending := m.pending ++ [t] }
  | none, some b =>
    match m.nesting with
    | (opened, _) :: rest =>
      if opened = b then .ok { m with nesting := rest, pending := m.pending ++ [t] }
      else .error (.source ⟨t.line, .unbalanced b⟩)
    | [] => .error (.source ⟨t.line, .unbalanced b⟩)
  | none, none =>
    .ok { m with
      assigned := m.assigned || (t.isPunct ['='] && m.nesting.isEmpty)
      pending := m.pending ++ [t] }

/-- A closed block that no line continues is written as a line of its own. -/
def settleCarry (m : Machine) (o : Options) : Except Stop Machine :=
  match m.carry with
  | some closed => { m with carry := none }.pushLine o closed
  | none => .ok m

/-- The text of a finished layout. -/
def finish (m : Machine) (o : Options) : Except Stop (List Char) :=
  if !m.pending.isEmpty then m.dangling
  else
    match m.nesting with
    | (bracket, line) :: _ => .error (.source ⟨line, .missing bracket⟩)
    | [] =>
      if 1 < m.scopes.length then do
        let scope ← m.scope
        throw (.source ⟨scope.openedAt, .missing .curly⟩)
      else do
        let m ← m.settleCarry o
        return unlines m.flushImports.out

end Machine

/-! ## The end of an annotation -/

/-- The position behind the points and words from position `j` on. -/
def dottedEnd (j : Nat) : List Token → Nat
  | dot :: name :: rest => if dot.isPunct ['.'] && name.isWord then dottedEnd (j + 2) rest else j
  | _ => j

/-- The position behind the parenthesis that closes the outermost of `depth` open ones, from position
`j` on. -/
def argumentsEnd (line depth j : Nat) : List Token → Except Stop Nat
  | [] => .error (.source ⟨line, .openAnnotationArguments⟩)
  | t :: rest =>
    if t.isPunct ['('] then argumentsEnd line (depth + 1) (j + 1) rest
    else if t.isPunct [')'] then do
      let depth ← minus depth 1
      if depth = 0 then return j + 1 else argumentsEnd line depth (j + 1) rest
    else argumentsEnd line depth (j + 1) rest

/-- The position behind the annotation that starts at position `i`. -/
def annotationEnd (tokens : List Token) (i : Nat) : Except Stop Nat :=
  let j := dottedEnd (i + 2) (tokens.drop (i + 2))
  if tokens[j]?.any (·.isPunct ['(']) then do
    let first ← elementAt tokens i
    argumentsEnd first.line 0 j (tokens.drop j)
  else .ok j

/-! ## The loop -/

def tokenBefore (tokens : List Token) (i : Nat) : Except Stop (Option Token) :=
  if i = 0 then .ok none else (elementAt tokens (i - 1)).map some

def annotationPass (o : Options) (tokens : List Token) (i : Nat) (m : Machine) :
    Except Stop (Nat × Machine) := do
  let stop ← annotationEnd tokens i
  let taken ← slice tokens i stop
  (m.decorate o [joinTokens taken]).map (stop, ·)

/-- One pass of the loop: the token at position `i` is read, with what belongs to it. -/
def iterate (o : Options) (tokens : List Token) (i : Nat) (m : Machine) :
    Except Stop (Nat × Machine) := do
  let t ← elementAt tokens i
  let atStart := m.pending.isEmpty && m.carry.isNone
  if t.kind = .lineComment then
    let previous ← tokenBefore tokens i
    (m.lineComment o t previous).map (i + 1, ·)
  else if t.kind = .blockComment ∧ atStart then
    (m.decorate o (commentLines t.text)).map (i + 1, ·)
  else if atStart ∧ startsAnnotation t (tokens.drop (i + 1)) then annotationPass o tokens i m
  else if t.isPunct ['{'] ∧ m.nesting.isEmpty ∧ ¬m.assigned then
    if tokens[i + 1]?.any (·.isPunct ['}']) then (m.emptyBlock o tokens[i + 2]?).map (i + 2, ·)
    else (m.openBlock o t.line).map (i + 1, ·)
  else if t.isPunct ['}'] ∧ m.nesting.isEmpty then
    (m.closeBlock o t.line tokens[i + 1]?).map (i + 1, ·)
  else if t.isPunct [';'] ∧ m.nesting.isEmpty then
    (Machine.endStatement { m with pending := m.pending ++ [t] } o).map (i + 1, ·)
  else (m.pushToken t).map (i + 1, ·)

/-- The loop from position `i` on, with at most `n` passes. -/
def loop (o : Options) (tokens : List Token) : Nat → Nat → Machine → Except Stop Machine
  | 0, i, m => if i < tokens.length then .error .endless else .ok m
  | n + 1, i, m =>
    if i < tokens.length then do
      let (i, m) ← iterate o tokens i m
      loop o tokens n i m
    else .ok m

end JpaScaffold.Java.Layout
