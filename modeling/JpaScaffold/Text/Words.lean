import JpaScaffold.Text.Case
import JpaScaffold.Text.Letters

/-!
The words of a name and the forms that write them together. A word ends at a character that is
neither letter nor number, behind a lower case letter that an upper case one follows, and before the
last upper case letter of a run that a lower case one follows.
-/
namespace JpaScaffold.Text

/-- The case of the letters read last in a word. -/
inductive CaseMode where
  | none
  | lower
  | upper
  deriving DecidableEq

def CaseMode.next (mode : CaseMode) (c : Char) : CaseMode :=
  if isLower c then .lower else if isUpper c then .upper else mode

/-- Cuts a run of letters and numbers into words; `word` holds the characters of the word that is
being read. -/
def cutWords (mode : CaseMode) (word : List Char) : List Char → List (List Char)
  | [] => []
  | [c] => [word ++ [c]]
  | c :: d :: rest =>
    if mode.next c = .lower ∧ isUpper d then (word ++ [c]) :: cutWords .none [] (d :: rest)
    else if mode = .upper ∧ isUpper c ∧ isLower d then word :: cutWords .none [c] (d :: rest)
    else cutWords (mode.next c) (word ++ [c]) (d :: rest)

def caseWords (cs : List Char) : List (List Char) :=
  (cs.splitOnP (!isAlphanumeric ·)).flatMap (cutWords .none [])

/-- A word in lower case. A capital sigma at its end becomes the final sigma. -/
def lowerWord : List Char → List Char
  | [] => []
  | ['Σ'] => ['ς']
  | c :: rest => lowerForm c ++ lowerWord rest

/-- A word whose first letter is in upper case and whose other letters are in lower case. -/
def capitalWord : List Char → List Char
  | [] => []
  | c :: rest => upperForm c ++ lowerWord rest

/-- The words of a name written together, each with a capital letter. -/
def upperCamel (cs : List Char) : List Char := (caseWords cs).flatMap capitalWord

/-- The words of a name written together, each but the first with a capital letter. -/
def lowerCamel (cs : List Char) : List Char :=
  match caseWords cs with
  | [] => []
  | first :: rest => lowerWord first ++ rest.flatMap capitalWord

end JpaScaffold.Text
