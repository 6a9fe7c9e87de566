import JpaScaffold.Sql.CreateTable
import JpaScaffold.Sql.Token
import JpaScaffold.Text.Count

/-!
The steps that parsers of SQL are made of. A parser takes tokens from the front of a list, or fails.
-/
namespace JpaScaffold.Sql

/-- A step that takes tokens from the front, or fails. -/
abbrev Parser := StateT (List Token) Option

/-- The token is the keyword `k`, without quotes and in any letter case. -/
def Token.isKeyword (t : Token) (k : String) : Bool :=
  match t with
  | .word _ keyword => keyword == k
  | _ => false

def Token.isAnyKeyword (t : Token) (ks : List String) : Bool := ks.any t.isKeyword

def Token.isOperator (t : Token) (s : String) : Bool := t == .operator s

namespace Parser

def startsWith (ks : List String) (ts : List Token) : Bool :=
  match ks, ts with
  | [], _ => true
  | _ :: _, [] => false
  | k :: ks, t :: ts => t.isKeyword k && startsWith ks ts

def next : Parser Token := fun
  | [] => none
  | t :: ts => some (t, ts)

def skip : Parser Unit := fun ts => some ((), ts.tail)

def peek : Parser (Option Token) := fun ts => some (ts.head?, ts)

/-- Takes the keywords if they stand in front, and answers whether they did. -/
def tryKeywords (ks : List String) : Parser Bool := fun ts =>
  if startsWith ks ts then some (true, ts.drop ks.length) else some (false, ts)

def keywords (ks : List String) : Parser Unit := do
  guard (← tryKeywords ks)

/-- Takes the operator if it stands in front, and answers whether it did. -/
def tryOperator (s : String) : Parser Bool := fun
  | t :: ts => if t.isOperator s then some (true, ts) else some (false, t :: ts)
  | [] => some (false, [])

def operator (s : String) : Parser Unit := do
  guard (← tryOperator s)

/-- What a parser takes, or nothing if it fails. -/
def attempt {α : Type} (p : Parser α) : Parser (Option α) := fun ts =>
  match p ts with
  | some (a, rest) => some (some a, rest)
  | none => some (none, ts)

def commaSeparated {α : Type} (p : Parser α) : Parser (List α) := fun ts =>
  match p ts with
  | none => none
  | some (a, []) => some ([a], [])
  | some (a, t :: rest) =>
    if t.isOperator "," then
      if rest.length < ts.length then
        (commaSeparated p rest).map fun (as, rest) => (a :: as, rest)
      else none
    else some ([a], t :: rest)
termination_by ts => ts.length

def many {α : Type} (p : Parser (Option α)) : Parser (List α) := fun ts =>
  match p ts with
  | none => none
  | some (none, rest) => some ([], rest)
  | some (some a, rest) =>
    if rest.length < ts.length then (many p rest).map fun (as, rest) => (a :: as, rest) else none
termination_by ts => ts.length

/-- The place of the first parser that takes something, and what is left behind it. -/
def firstTaken (ps : List (Parser Bool)) (ts : List Token) : Option (Nat × List Token) :=
  match ps with
  | [] => none
  | p :: ps =>
    match p ts with
    | some (true, rest) => some (0, rest)
    | _ => (firstTaken ps ts).map fun (n, rest) => (n + 1, rest)

/-- Parsers in any order, each once at most. -/
def anyOrder (ps : List (Parser Bool)) : Parser Unit := fun ts =>
  match firstTaken ps ts with
  | none => some ((), ts)
  | some (n, rest) => if _h : n < ps.length then anyOrder (ps.eraseIdx n) rest else none
termination_by ps.length
decreasing_by
  rw [List.length_eraseIdx_of_lt (by assumption)]
  omega

/-- A name. A string may stand for one. -/
def ident : Parser Ident := do
  match ← next with
  | .word value _ => return ⟨value, none⟩
  | .quotedName value => return ⟨value, some '"'⟩
  | .string value => return ⟨value, some '\''⟩
  | _ => failure

def dottedIdents : Parser (List Ident) :=
  many do
    if ← tryOperator "." then return some (← ident)
    return none

def objectName : Parser (List Ident) := do
  let first ← ident
  return first :: (← dottedIdents)

/-- A number without sign and point. -/
def count : Parser Nat := do
  match ← next with
  | .number digits => (Text.readCount digits.toList).elim failure pure
  | _ => failure

def parenthesized {α : Type} (p : Parser α) : Parser α := do
  operator "("
  let a ← p
  operator ")"
  return a

/-- What stands between parentheses, if there are any. -/
def optionalParens {α : Type} (p : Parser α) : Parser (Option α) := do
  if ← tryOperator "(" then
    let a ← p
    operator ")"
    return some a
  return none

def columnList : Parser (List Ident) := parenthesized (commaSeparated ident)

end Parser

end JpaScaffold.Sql
