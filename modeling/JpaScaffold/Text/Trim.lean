import JpaScaffold.Text.Span

/-!
Cutting a text at blanks and at line ends. A cut loses nothing but the separators: trimming takes a
prefix and a suffix of blanks, and `words` drops runs of blanks.
-/
namespace JpaScaffold.Text

/-- The text without the longest suffix whose characters all satisfy `p`. -/
def dropEndWhile (p : Char → Bool) (cs : List Char) : List Char :=
  (cs.reverse.dropWhile p).reverse

def trimStart (cs : List Char) : List Char := cs.dropWhile isBlank

def trimEnd (cs : List Char) : List Char := dropEndWhile isBlank cs

def trim (cs : List Char) : List Char := trimEnd (trimStart cs)

/-- The maximal runs of characters that are not blank. -/
def words (cs : List Char) : List (List Char) :=
  (cs.splitOnP isBlank).filter fun w => !w.isEmpty

/-- One carriage return less at the end, if there is one. -/
def dropReturn (cs : List Char) : List Char :=
  if cs.getLast? = some '\r' then cs.dropLast else cs

/-- The lines of a text. A line feed ends a line, with a carriage return before it if there is one;
a text that ends with a line feed has no further empty line. -/
def lines (cs : List Char) : List (List Char) :=
  let pieces := cs.splitOnP (· == '\n')
  let closed := pieces.dropLast.map dropReturn
  match pieces.getLast? with
  | none => []
  | some [] => closed
  | some last => closed ++ [last]

/-- The text `a`, `b` and so on with `sep` between neighbours. -/
def joinWith (sep : List Char) (parts : List (List Char)) : List Char := sep.intercalate parts

def mapChars (f : List Char → List Char) (s : String) : String := String.ofList (f s.toList)

@[simp] theorem toList_mapChars (f : List Char → List Char) (s : String) :
    (mapChars f s).toList = f s.toList := by simp [mapChars]

theorem length_lt_of_trimStart {cs rest : List Char} {c : Char} (h : trimStart cs = c :: rest) :
    rest.length < cs.length := by
  have := (List.dropWhile_sublist isBlank (l := cs)).length_le
  rw [← trimStart, h, List.length_cons] at this
  omega

theorem dropEndWhile_append_suffix (p : Char → Bool) (cs : List Char) :
    dropEndWhile p cs ++ (cs.reverse.takeWhile p).reverse = cs := by
  rw [dropEndWhile, ← List.reverse_append, List.takeWhile_append_dropWhile, List.reverse_reverse]

end JpaScaffold.Text
