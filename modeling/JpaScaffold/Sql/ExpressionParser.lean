import JpaScaffold.Sql.DataTypeParser

/-!
Passing over expressions. An expression alternates between operands and the operators between them;
a stack says which brackets, choices and queries are open. Nothing of an expression is kept.
-/
namespace JpaScaffold.Sql

/-- What is open inside an expression. -/
inductive Frame where
  | group
  | call
  | index
  /-- A CASE without its END. -/
  | choice
  /-- A BETWEEN without its AND. -/
  | between
  /-- A query between parentheses. -/
  | query
  /-- A query that ends with its statement. -/
  | select
  deriving DecidableEq

namespace Frame

/-- A comma may stand here. -/
def hasCommas : Frame → Bool
  | group | call | index | query | select => true
  | _ => false

/-- A parenthesis closes the frame. -/
def endsWithParen : Frame → Bool
  | group | call | query => true
  | _ => false

def isQuery : Frame → Bool
  | query | select => true
  | _ => false

end Frame

def queryWords : List String := ["SELECT", "VALUES", "WITH"]

/-- The keywords that start a clause of a query, and in front of an operand. -/
def clauseWords : List String := [
  "FROM", "WHERE", "HAVING", "LIMIT", "OFFSET", "ON", "JOIN", "RETURNING", "VALUES", "SELECT", "BY"]

/-- The keywords of a query that stand between its clauses. -/
def linkWords : List String := [
  "GROUP", "ORDER", "LEFT", "RIGHT", "FULL", "INNER", "OUTER", "CROSS", "NATURAL", "UNION",
  "INTERSECT", "EXCEPT", "ALL", "DISTINCT", "ASC", "DESC", "NULLS", "FIRST", "LAST", "AS"]

def intervalUnits : List String := ["YEAR", "MONTH", "DAY", "HOUR", "MINUTE", "SECOND"]

def isBinaryOperator (s : String) : Bool := s.toList.all isOperatorChar && s != "?"

def isUnaryOperator (s : String) : Bool := ["+", "-", "~", "@", "!!", "|/", "||/"].contains s

/-- The tokens behind the points and names that continue a dotted name. -/
def dottedTail : List Token → List Token
  | .operator "." :: .word _ _ :: ts => dottedTail ts
  | .operator "." :: .quotedName _ :: ts => dottedTail ts
  | .operator "." :: .string _ :: ts => dottedTail ts
  | .operator "." :: .operator "*" :: ts => ts
  | ts => ts

/-- The tokens behind a type, if there is one. -/
def typeTail (ts : List Token) : Option (List Token) := (Parser.dataType ts).map (·.2)

/-- The tokens behind a constant with its type in front. -/
def typedString (ts : List Token) : Option (List Token) :=
  match Parser.dataType ts with
  | some (.builtin .., .string _ :: rest) => some rest
  | _ => none

/-- The tokens behind an interval's string and its unit. -/
def intervalTail : List Token → Option (List Token)
  | .string _ :: unit :: ts => some (if unit.isAnyKeyword intervalUnits then ts else unit :: ts)
  | [.string _] => some []
  | _ => none

/-- A parenthesis opens a query. -/
def opensQuery (ts : List Token) : Bool := ts.head?.any (·.isAnyKeyword queryWords)

/-- Where the expression goes on: behind an operand or in front of one, with the frames that are
open. -/
structure Position where
  operandNext : Bool
  frames : List Frame
  rest : List Token

/-- The position behind a name: at its first argument if it is called. -/
def behindName (frames : List Frame) (ts : List Token) : Position :=
  match dottedTail ts with
  | .operator "(" :: .operator ")" :: rest => ⟨false, frames, rest⟩
  | .operator "(" :: rest =>
    if opensQuery rest then ⟨true, .query :: frames, rest.tail⟩ else ⟨true, .call :: frames, rest⟩
  | rest => ⟨false, frames, rest⟩

def operand (frames : List Frame) : List Token → Option Position
  | [] => none
  | .number _ :: ts | .string _ :: ts | .constant :: ts => some ⟨false, frames, ts⟩
  | .quotedName _ :: ts => some (behindName frames ts)
  | .operator "(" :: ts =>
    some (if opensQuery ts then ⟨true, .query :: frames, ts.tail⟩ else ⟨true, .group :: frames, ts⟩)
  | .operator "*" :: ts =>
    if frames.head?.any fun f => f == .call || f.isQuery then some ⟨false, frames, ts⟩ else none
  | .operator s :: ts => if isUnaryOperator s then some ⟨true, frames, ts⟩ else none
  | .word value keyword :: ts =>
    match keyword with
    | "NOT" => some ⟨true, frames, ts⟩
    | "CASE" =>
      some ⟨true, .choice :: frames, if ts.head?.any (·.isKeyword "WHEN") then ts.tail else ts⟩
    | "DISTINCT" | "ALL" =>
      if frames.head?.any fun f => f == .call || f.isQuery then some ⟨true, frames, ts⟩
      else some (behindName frames ts)
    | "INTERVAL" =>
      match intervalTail ts with
      | some rest => some ⟨false, frames, rest⟩
      | none => some (behindName frames ts)
    | "ARRAY" =>
      match ts with
      | .operator "[" :: .operator "]" :: rest => some ⟨false, frames, rest⟩
      | .operator "[" :: rest => some ⟨true, .index :: frames, rest⟩
      | _ => some (behindName frames ts)
    | _ =>
      match typedString (.word value keyword :: ts) with
      | some rest => some ⟨false, frames, rest⟩
      | none => some (behindName frames ts)

/-- The tokens behind the words that IS compares with; a flag says that an operand follows. -/
def behindIs (ts : List Token) : Option (Bool × List Token) :=
  let ts := if Parser.startsWith ["NOT"] ts then ts.tail else ts
  if Parser.startsWith ["DISTINCT", "FROM"] ts then some (true, ts.drop 2)
  else if ts.head?.any (·.isAnyKeyword ["NULL", "TRUE", "FALSE", "UNKNOWN"]) then
    some (false, ts.tail)
  else none

/-- Takes a comparison by words, behind NOT or not. -/
def comparison (frames : List Frame) (ts : List Token) : Option Position :=
  if Parser.startsWith ["BETWEEN"] ts then some ⟨true, .between :: frames, ts.tail⟩
  else if Parser.startsWith ["SIMILAR", "TO"] ts then some ⟨true, frames, ts.drop 2⟩
  else if ts.head?.any (·.isAnyKeyword ["LIKE", "ILIKE", "RLIKE", "REGEXP"]) then
    some ⟨true, frames, ts.tail⟩
  else
    match ts with
    | t :: .operator "(" :: rest =>
      if t.isKeyword "IN" then
        some (if opensQuery rest then ⟨true, .query :: frames, rest.tail⟩
          else ⟨true, .group :: frames, rest⟩)
      else none
    | _ => none

/-- Takes a word that belongs to the innermost frame. -/
def frameWord (frames : List Frame) (keyword : String) (ts : List Token) : Option Position :=
  match frames, keyword with
  | .between :: outer, "AND" => some ⟨true, outer, ts⟩
  | .choice :: _, "WHEN" | .choice :: _, "THEN" | .choice :: _, "ELSE" => some ⟨true, frames, ts⟩
  | .choice :: outer, "END" => some ⟨false, outer, ts⟩
  | .call :: _, "AS" => (typeTail ts).map fun rest => ⟨false, frames, rest⟩
  | .call :: _, "FROM" | .call :: _, "FOR" => some ⟨true, frames, ts⟩
  | .call :: _, "ORDER" =>
    if Parser.startsWith ["BY"] ts then some ⟨true, frames, ts.tail⟩ else none
  | .call :: _, "ASC" | .call :: _, "DESC" => some ⟨false, frames, ts⟩
  | frame :: _, _ =>
    if !frame.isQuery then none
    else if clauseWords.contains keyword then some ⟨true, frames, ts⟩
    else some ⟨false, frames, ts⟩
  | [], _ => none

/-- Takes what stands between two operands, or what closes a frame; `none` if nothing of the
expression stands in front. -/
def link (frames : List Frame) : List Token → Option Position
  | [] => none
  | .operator ")" :: ts =>
    match frames with
    | frame :: outer => if frame.endsWithParen then some ⟨false, outer, ts⟩ else none
    | [] => none
  | .operator "]" :: ts =>
    match frames with
    | .index :: outer => some ⟨false, outer, ts⟩
    | _ => none
  | .operator "," :: ts =>
    if frames.head?.any Frame.hasCommas then some ⟨true, frames, ts⟩ else none
  | .operator "::" :: ts => (typeTail ts).map fun rest => ⟨false, frames, rest⟩
  | .operator "[" :: ts => some ⟨true, .index :: frames, ts⟩
  | .operator ":" :: ts => if frames.head? = some .index then some ⟨true, frames, ts⟩ else none
  | .operator s :: ts => if isBinaryOperator s then some ⟨true, frames, ts⟩ else none
  | .word _ keyword :: ts =>
    match frameWord frames keyword ts with
    | some p => some p
    | none =>
      match keyword with
      | "AND" | "OR" => some ⟨true, frames, ts⟩
      | "IS" => (behindIs ts).map fun (more, rest) => ⟨more, frames, rest⟩
      | "NOT" => comparison frames ts
      | "AT" =>
        if Parser.startsWith ["TIME", "ZONE"] ts then some ⟨true, frames, ts.drop 2⟩ else none
      | "COLLATE" => (Parser.objectName ts).map fun (_, rest) => ⟨false, frames, rest⟩
      | "ESCAPE" =>
        match ts with
        | .string _ :: rest => some ⟨false, frames, rest⟩
        | _ => none
      | "LIKE" | "ILIKE" | "SIMILAR" | "RLIKE" | "REGEXP" | "IN" | "BETWEEN" =>
        comparison frames (.word keyword keyword :: ts)
      | _ => none
  | _ => none

/-- The tokens behind the expression whose next part stands in front. An expression ends where
nothing of it follows; all frames are closed then, or the query ends with its statement. -/
def expressionTail (operandNext : Bool) (frames : List Frame) (ts : List Token) :
    Option (List Token) :=
  match if operandNext then operand frames ts else link frames ts with
  | some p =>
    if p.rest.length < ts.length then expressionTail p.operandNext p.frames p.rest else none
  | none =>
    if operandNext then none
    else if frames.isEmpty || frames == [.select] then some ts
    else none
termination_by ts.length

namespace Parser

def expression : Parser Unit := fun ts => (expressionTail true [] ts).map fun rest => ((), rest)

def query : Parser Unit := fun
  | t :: ts =>
    if t.isAnyKeyword queryWords then
      (expressionTail true [.select] ts).map fun rest => ((), rest)
    else none
  | [] => none

end Parser

end JpaScaffold.Sql
