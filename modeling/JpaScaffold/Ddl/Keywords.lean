import JpaScaffold.Ddl.Marked

/-!
Looking for a sequence of keywords in the code of a script. Keywords are matched in any letter case,
as whole words, with blanks of code between them. A search does not pass a character outside ASCII
that is code: it stops there with a fault.
-/
namespace JpaScaffold.Ddl

/-- A character outside ASCII stands in code where keywords are looked for. -/
inductive ScanFault where
  | foreignCharacter
  deriving DecidableEq

def isWordChar (c : Char) : Bool := c.isAlphanum || c == '_'

def isKeywordBlank (c : Char) : Bool :=
  c == ' ' || c == '\t' || c == '\n' || c == '\x0c' || c == '\r'

/-- The text behind a word in front, of which every character is code. -/
def dropWord : List Char → List Marked → Option (List Marked)
  | [], ms => some ms
  | _ :: _, [] => none
  | w :: word, m :: ms => if m.isCode && m.char.toLower == w then dropWord word ms else none

/-- The text behind the blanks in front, of which there is at least one. -/
def dropBlanks : List Marked → Option (List Marked)
  | [] => none
  | m :: ms =>
    if m.isCode && isKeywordBlank m.char then
      some (ms.dropWhile fun m => m.isCode && isKeywordBlank m.char)
    else none

/-- The text behind the words in front, with blanks between them. -/
def dropWords : List (List Char) → List Marked → Option (List Marked)
  | [], ms => some ms
  | [word], ms => dropWord word ms
  | word :: more, ms => ((dropWord word ms).bind dropBlanks).bind (dropWords more)

/-- A word does not go on at the front of the text. -/
def endsWord : List Marked → Bool
  | [] => true
  | m :: _ => !isWordChar m.char

/-- The text behind the keywords, if they stand in front as whole words; `inWord` says whether the
character before the text belongs to a word. -/
def matchKeywords (words : List (List Char)) (inWord : Bool) (ms : List Marked) :
    Option (List Marked) :=
  if inWord then none else (dropWords words ms).filter endsWord

/-- A place where keywords stand: the text before it, the text from it on, and the text behind the
keywords. -/
structure Found where
  before : List Marked
  start : List Marked
  after : List Marked

/-- The first place where keywords stand in code. -/
def seek (words : List (List Char)) (inWord : Bool) : List Marked → Except ScanFault (Option Found)
  | [] => .ok none
  | m :: ms =>
    match if m.isCode then matchKeywords words inWord (m :: ms) else none with
    | some after => .ok (some ⟨[], m :: ms, after⟩)
    | none =>
      if m.isCode && 128 ≤ m.char.val then .error .foreignCharacter
      else
        (seek words (isWordChar m.char) ms).map
          (Option.map fun f => { f with before := m :: f.before })

end JpaScaffold.Ddl
