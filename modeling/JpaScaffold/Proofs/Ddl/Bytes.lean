import JpaScaffold.Proofs.Ddl.Keywords
import JpaScaffold.Proofs.Ddl.Mask

/-!
# Scanning by byte offsets

The scans over a script can count in bytes: a slice starts at a byte offset, which has to stand between
two characters, and the mask and the bytes are indexed, which has to stay in range. Here the scans are
written that way, and stop where a slice or an index is refused.
-/
namespace JpaScaffold.Ddl

open Text (asciiByte utf8)

/-- What stops a scan: a slice at an offset that stands inside of a character or behind the end, and
an index out of range. -/
inductive Panic where
  | slice (offset : Nat)
  | index (offset : Nat)
  deriving DecidableEq

/-- The characters in front of a byte offset and those behind it. -/
def cutAt : Nat → List Char → Option (List Char × List Char)
  | 0, cs => some ([], cs)
  | _ + 1, [] => none
  | n + 1, c :: cs =>
    if c.utf8Size ≤ n + 1 then
      (cutAt (n + 1 - c.utf8Size) cs).map fun (front, tail) => (c :: front, tail)
    else none

def slicesAt (cs : List Char) (offset : Nat) : Except Panic (List Char × List Char) :=
  match cutAt offset cs with
  | some slices => .ok slices
  | none => .error (.slice offset)

def entry {α : Type} (xs : List α) (i : Nat) : Except Panic α :=
  match xs[i]? with
  | some x => .ok x
  | none => .error (.index i)

def entries {α : Type} (xs : List α) (start stop : Nat) : Except Panic (List α) :=
  if start ≤ stop ∧ stop ≤ xs.length then .ok ((xs.drop start).take (stop - start))
  else .error (.index stop)

def isWordByte (b : UInt8) : Bool :=
  asciiByte '0' ≤ b && b ≤ asciiByte '9' || asciiByte 'a' ≤ b && b ≤ asciiByte 'z' ||
    asciiByte 'A' ≤ b && b ≤ asciiByte 'Z' || b == asciiByte '_'

def isBlankByte (b : UInt8) : Bool :=
  b == asciiByte ' ' || b == asciiByte '\t' || b == asciiByte '\n' || b == asciiByte '\x0c' ||
    b == asciiByte '\r'

/-- A script as it is scanned: its characters, the same in lower case, and the mask of its bytes. -/
structure Scanned where
  text : List Char
  lower : List Char
  mask : List Bool

namespace Scanned

/-- The scan of a text. -/
def of (text : List Char) : Scanned := ⟨text, text.map Char.toLower, codeMask (utf8 text)⟩

variable (s : Scanned)

def bytes : List UInt8 := utf8 s.lower

def skipBlanks (i : Nat) : Except Panic Nat :=
  if i < s.bytes.length then do
    let code ← entry s.mask i
    if code then
      let b ← entry s.bytes i
      if isBlankByte b then skipBlanks (i + 1) else return i
    else return i
  else return i
termination_by s.bytes.length - i

def matchWord (word : List Char) (i : Nat) : Except Panic Bool := do
  let (_, tail) ← slicesAt s.lower i
  if word.isPrefixOf tail then
    let marks ← entries s.mask i (i + word.length)
    return marks.all id
  else return false

/-- The offset behind the words that follow, each behind blanks. -/
def matchMore : List (List Char) → Nat → Except Panic (Option Nat)
  | [], i => return some i
  | word :: words, i => do
    let start ← s.skipBlanks i
    if start = i then return none
    else
      let spelled ← s.matchWord word start
      if spelled then matchMore words (start + word.length) else return none

def wordBefore (i : Nat) : Except Panic Bool :=
  if 0 < i then (entry s.bytes (i - 1)).map isWordByte else return false

def wordAt (i : Nat) : Except Panic Bool :=
  if i < s.bytes.length then (entry s.bytes i).map isWordByte else return false

def matchWords : List (List Char) → Nat → Except Panic (Option Nat)
  | [], i => return some i
  | word :: words, i => do
    let spelled ← s.matchWord word i
    if spelled then s.matchMore words (i + word.length) else return none

/-- The offset behind the keywords at an offset. -/
def matchKeywords (words : List (List Char)) (i : Nat) : Except Panic (Option Nat) := do
  let inWord ← s.wordBefore i
  if inWord then return none
  else
    match ← s.matchWords words i with
    | none => return none
    | some stop =>
      let goesOn ← s.wordAt stop
      return if goesOn then none else some stop

/-- The offset behind the keywords at an offset, if it is code. -/
def codeKeywords (words : List (List Char)) (i : Nat) : Except Panic (Option Nat) := do
  let code ← entry s.mask i
  if code then s.matchKeywords words i else return none

/-- The offset from `i` on at which the keywords stand, and the one behind them. -/
def search (words : List (List Char)) (i : Nat) : Except Panic (Option (Nat × Nat)) :=
  if i < s.bytes.length then do
    match ← s.codeKeywords words i with
    | some stop => return some (i, stop)
    | none => search words (i + 1)
  else return none
termination_by s.bytes.length - i

/-- The offset of the first semicolon of code from `i` on. -/
def semicolon (i : Nat) : Except Panic (Option Nat) :=
  if i < s.bytes.length then do
    let code ← entry s.mask i
    if code then
      let b ← entry s.bytes i
      if b = asciiByte ';' then return some i else semicolon (i + 1)
    else semicolon (i + 1)
  else return none
termination_by s.bytes.length - i

def span (start stop : Nat) : Except Panic (List Char) := do
  let (_, tail) ← slicesAt s.text start
  let (front, _) ← slicesAt tail (stop - start)
  return front

variable {s : Scanned} {words : List (List Char)} {i j : Nat} {stop : Nat}

theorem le_of_skipBlanks (h : s.skipBlanks i = .ok j) : i ≤ j := by
  fun_induction skipBlanks s i with
  | case1 i hi ih =>
    obtain ⟨code, -, h⟩ := bind_eq_ok.1 h
    split at h
    · obtain ⟨b, -, h⟩ := bind_eq_ok.1 h
      split at h
      · exact Nat.le_of_succ_le (ih h)
      · cases h
        exact Nat.le_refl _
    · cases h
      exact Nat.le_refl _
  | case2 =>
    cases h
    exact Nat.le_refl _

theorem le_of_matchMore (h : s.matchMore words i = .ok (some stop)) : i ≤ stop := by
  induction words generalizing i with
  | nil =>
    cases h
    exact Nat.le_refl _
  | cons word words ih =>
    obtain ⟨start, hstart, h⟩ := bind_eq_ok.1 h
    split at h
    · cases h
    · obtain ⟨spelled, -, h⟩ := bind_eq_ok.1 h
      split at h
      · exact le_trans (le_of_skipBlanks hstart) (Nat.le_of_add_right_le (ih h))
      · cases h

theorem le_of_matchKeywords (h : s.matchKeywords words i = .ok (some stop)) : i ≤ stop := by
  obtain ⟨inWord, -, h⟩ := bind_eq_ok.1 h
  split at h
  · cases h
  · obtain ⟨matched, hmatched, h⟩ := bind_eq_ok.1 h
    cases matched with
    | none => cases h
    | some stop' =>
      obtain ⟨goesOn, -, h⟩ := bind_eq_ok.1 h
      cases goesOn with
      | true => cases h
      | false =>
        cases h
        cases words with
        | nil =>
          cases hmatched
          exact Nat.le_refl _
        | cons word words =>
          obtain ⟨spelled, -, hmatched⟩ := bind_eq_ok.1 hmatched
          split at hmatched
          · exact Nat.le_of_add_right_le (le_of_matchMore hmatched)
          · cases hmatched

theorem le_of_search {start : Nat} (h : s.search words i = .ok (some (start, stop))) :
    i < s.bytes.length ∧ i ≤ stop := by
  fun_induction search s words i with
  | case1 i hi ih =>
    obtain ⟨found, hfound, h⟩ := bind_eq_ok.1 h
    refine ⟨hi, ?_⟩
    cases found with
    | none => exact Nat.le_of_succ_le (ih h).2
    | some stop' =>
      cases h
      obtain ⟨code, -, hfound⟩ := bind_eq_ok.1 hfound
      split at hfound
      · exact le_of_matchKeywords hfound
      · cases hfound
  | case2 => cases h

theorem le_of_semicolon (h : s.semicolon i = .ok (some j)) : i ≤ j := by
  fun_induction semicolon s i with
  | case1 i hi ih =>
    obtain ⟨code, -, h⟩ := bind_eq_ok.1 h
    split at h
    · obtain ⟨b, -, h⟩ := bind_eq_ok.1 h
      split at h
      · cases h
        exact Nat.le_refl _
      · exact Nat.le_of_succ_le (ih h)
    · exact Nat.le_of_succ_le (ih h)
  | case2 => cases h

variable (s)

/-- The offsets of the first statement from `i` on and of its semicolon. -/
def statementFrom (i : Nat) : Except Panic (Option (Nat × Nat)) := do
  match ← s.search createTable i with
  | none => return none
  | some (start, stop) =>
    match ← s.semicolon stop with
    | none => return none
    | some last => return some (start, last)

theorem le_of_statementFrom {start last : Nat} (h : s.statementFrom i = .ok (some (start, last))) :
    i < s.bytes.length ∧ i ≤ last := by
  obtain ⟨found, hfound, h⟩ := bind_eq_ok.1 h
  cases found with
  | none => cases h
  | some places =>
    obtain ⟨ends, hends, h⟩ := bind_eq_ok.1 h
    cases ends with
    | none => cases h
    | some last' =>
      cases h
      obtain ⟨hlt, hle⟩ := le_of_search hfound
      exact ⟨hlt, le_trans hle (le_of_semicolon hends)⟩

def splitFrom (i : Nat) : Except Panic (List (List Char)) :=
  match h : s.statementFrom i with
  | .error e => .error e
  | .ok none => .ok []
  | .ok (some (start, last)) => do
    have : s.bytes.length - (last + 1) < s.bytes.length - i := by
      have hle := le_of_statementFrom s h
      omega
    let statement ← s.span start (last + 1)
    let more ← splitFrom (last + 1)
    return statement :: more
termination_by s.bytes.length - i

def skipWhitespace (i : Nat) : Except Panic Nat := do
  let (_, tail) ← slicesAt s.lower i
  return s.bytes.length - (utf8 (Text.trimStart tail)).length

/-- The offset of the name behind CREATE TABLE and, where they stand, behind IF NOT EXISTS. -/
def nameOffset (i : Nat) : Except Panic Nat := do
  let start ← s.skipWhitespace i
  match ← s.matchKeywords ifNotExists start with
  | some stop => s.skipWhitespace stop
  | none => return start

end Scanned

/-- The name in front of a text, without schema and quotes. -/
def nameOf (cs : List Char) : Option String :=
  let name := bareName (cs.takeWhile fun c => !Text.isBlank c && c != '(' && c != ';')
  if name.isEmpty then none else some (String.ofList name)

/-- `splitStatements` by byte offsets. -/
def scanStatements (script : String) : Except Panic (List String) :=
  ((Scanned.of script.toList).splitFrom 0).map (·.map String.ofList)

/-- `declaredName` by byte offsets. -/
def scanName (ddl : String) : Except Panic (Option String) := do
  let s := Scanned.of ddl.toList
  match ← s.search createTable 0 with
  | none => return none
  | some (_, stop) =>
    let offset ← s.nameOffset stop
    let (_, tail) ← slicesAt s.text offset
    return nameOf tail

/-- `stripPartition` by byte offsets. -/
def scanPartition (ddl : String) : Except Panic (String × Bool) := do
  let s := Scanned.of ddl.toList
  match ← s.search partitionBy 0 with
  | none => return (ddl, false)
  | some (start, _) =>
    let (front, _) ← slicesAt s.text start
    return (String.ofList (Text.trimEnd front), true)

end JpaScaffold.Ddl
