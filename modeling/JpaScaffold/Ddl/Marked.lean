import JpaScaffold.Text.Trim

/-!
Which characters of a script are code. Quoted strings, quoted names and comments are told apart from
code by one pass from left to right; every character keeps its mark. Main statements: marking
changes no character, and leaves as many marks as there are characters.
-/
namespace JpaScaffold.Ddl

/-- A character of a script, and whether it is code. -/
structure Marked where
  char : Char
  isCode : Bool
  deriving DecidableEq

/-- Where a scan stands: in code, in a string, in a quoted name, or in a comment that ends with the
line or with its closing mark. -/
inductive Region where
  | code
  | single
  | double
  | line
  | block
  deriving DecidableEq

/-- The characters of a script with their marks, for a scan that stands in the given region. A line
comment leaves the line feed that ends it to the code. The star of an opening mark may serve in the
closing one. -/
def mark : Region → List Char → List Marked
  | _, [] => []
  | .code, '\'' :: rest => ⟨'\'', false⟩ :: mark .single rest
  | .code, '"' :: rest => ⟨'"', false⟩ :: mark .double rest
  | .code, '-' :: '-' :: rest => ⟨'-', false⟩ :: ⟨'-', false⟩ :: mark .line rest
  | .code, '/' :: '*' :: '/' :: rest =>
    ⟨'/', false⟩ :: ⟨'*', false⟩ :: ⟨'/', false⟩ :: mark .code rest
  | .code, '/' :: '*' :: rest => ⟨'/', false⟩ :: ⟨'*', false⟩ :: mark .block rest
  | .code, c :: rest => ⟨c, true⟩ :: mark .code rest
  | .single, '\'' :: '\'' :: rest => ⟨'\'', false⟩ :: ⟨'\'', false⟩ :: mark .single rest
  | .single, '\'' :: rest => ⟨'\'', false⟩ :: mark .code rest
  | .single, c :: rest => ⟨c, false⟩ :: mark .single rest
  | .double, '"' :: rest => ⟨'"', false⟩ :: mark .code rest
  | .double, c :: rest => ⟨c, false⟩ :: mark .double rest
  | .line, '\n' :: rest => ⟨'\n', true⟩ :: mark .code rest
  | .line, c :: rest => ⟨c, false⟩ :: mark .line rest
  | .block, '*' :: '/' :: rest => ⟨'*', false⟩ :: ⟨'/', false⟩ :: mark .code rest
  | .block, c :: rest => ⟨c, false⟩ :: mark .block rest

def unmark (ms : List Marked) : List Char := ms.map Marked.char

/-- The characters of a script with their marks. -/
def marked (script : List Char) : List Marked := mark .code script

@[simp] theorem mark_nil (r : Region) : mark r [] = [] := by rw [mark]

theorem unmark_mark (r : Region) (cs : List Char) : unmark (mark r cs) = cs := by
  fun_induction mark r cs <;> simp_all [unmark]

@[simp] theorem unmark_marked (cs : List Char) : unmark (marked cs) = cs := unmark_mark _ cs

theorem length_mark (r : Region) (cs : List Char) : (mark r cs).length = cs.length := by
  simpa [unmark] using congrArg List.length (unmark_mark r cs)

end JpaScaffold.Ddl
