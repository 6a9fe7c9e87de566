import JpaScaffold.Toml.Value

/-!
Reading strings, numbers, truth values and dates. A reader takes characters from the front of a
text, or fails.
-/
namespace JpaScaffold.Toml

/-- A step that takes characters from the front, or fails. -/
abbrev Reader := StateT (List Char) Option

/-- A character that may stand in strings and in comments as itself. -/
def isPlain (c : Char) : Bool := c == '\t' || (0x20 ≤ c.val && c.val != 0x7f)

def isSpace (c : Char) : Bool := c == ' ' || c == '\t'

def skipSpaces (cs : List Char) : List Char := cs.dropWhile isSpace

def newline? : List Char → Option (List Char)
  | '\n' :: rest => some rest
  | '\r' :: '\n' :: rest => some rest
  | _ => none

def hexDigit? (c : Char) : Option Nat :=
  if c.isDigit then some (c.toNat - 48)
  else if 'a' ≤ c ∧ c ≤ 'f' then some (c.toNat - 87)
  else if 'A' ≤ c ∧ c ≤ 'F' then some (c.toNat - 55)
  else none

def valueOf (base : Nat) (digits : List Nat) : Nat := digits.foldl (fun n d => base * n + d) 0

/-- The character of the `n` digits in front, and what follows them. -/
def codePoint (n : Nat) (cs : List Char) : Option (Char × List Char) :=
  ((cs.take n).mapM hexDigit?).bind fun ds =>
    let code := valueOf 16 ds
    if ds.length = n ∧ code.isValidChar then some (.ofNat code, cs.drop n) else none

/-- The character of an escape, from the characters behind its backslash, and what follows it. -/
def escape : List Char → Option (Char × List Char)
  | 'b' :: rest => some ('\x08', rest)
  | 't' :: rest => some ('\t', rest)
  | 'n' :: rest => some ('\n', rest)
  | 'f' :: rest => some ('\x0c', rest)
  | 'r' :: rest => some ('\r', rest)
  | '"' :: rest => some ('"', rest)
  | '\\' :: rest => some ('\\', rest)
  | 'u' :: rest => codePoint 4 rest
  | 'U' :: rest => codePoint 8 rest
  | _ => none

theorem codePoint_length {n : Nat} {cs rest : List Char} {c : Char}
    (h : codePoint n cs = some (c, rest)) : rest.length ≤ cs.length := by
  unfold codePoint at h
  obtain ⟨ds, _, h⟩ := Option.bind_eq_some_iff.1 h
  dsimp only at h
  split at h
  · cases h
    simp
  · cases h

theorem escape_length {cs rest : List Char} {c : Char} (h : escape cs = some (c, rest)) :
    rest.length ≤ cs.length := by
  unfold escape at h
  split at h
  all_goals first
    | (cases h; exact Nat.le_succ _)
    | exact Nat.le_succ_of_le (codePoint_length h)
    | cases h

/-- The text up to the closing quotation mark, and what follows it. -/
def basicTail (cs : List Char) : Option (List Char × List Char) :=
  match cs with
  | [] => none
  | '"' :: rest => some ([], rest)
  | '\\' :: rest =>
    match h : escape rest with
    | none => none
    | some (c, left) =>
      have := escape_length h
      (basicTail left).map fun (t, r) => (c :: t, r)
  | c :: rest => if isPlain c then (basicTail rest).map fun (t, r) => (c :: t, r) else none
termination_by cs.length
decreasing_by all_goals simp only [List.length_cons]; omega

/-- The text up to the closing apostrophe, and what follows it. -/
def literalTail : List Char → Option (List Char × List Char)
  | [] => none
  | '\'' :: rest => some ([], rest)
  | c :: rest => if isPlain c then (literalTail rest).map fun (t, r) => (c :: t, r) else none

/-- The text without the spaces, tabs and line ends in front. -/
def skipLines : List Char → List Char
  | '\r' :: '\n' :: rest => skipLines rest
  | c :: rest => if isSpace c || c == '\n' then skipLines rest else c :: rest
  | [] => []

/-- The text that follows a backslash at the end of a line. -/
def skipLineEnd (cs : List Char) : Option (List Char) :=
  (newline? (skipSpaces cs)).map skipLines

/-- A quote that closes a text over several lines: three of them end it, and two more may belong to
it. The text that belongs to it, and what follows the end. -/
def closing (quote : Char) : List Char → Option (List Char × List Char)
  | a :: b :: c :: rest =>
    if a = quote ∧ b = quote ∧ c = quote then
      match rest with
      | d :: e :: rest =>
        if d = quote ∧ e = quote then some ([quote, quote], rest)
        else if d = quote then some ([quote], e :: rest)
        else some ([], d :: e :: rest)
      | [d] => if d = quote then some ([quote], []) else some ([], [d])
      | [] => some ([], [])
    else none
  | _ => none

/-- The text up to the closing quotation marks of a text over several lines, and what follows them.
`fuel` bounds the characters. -/
def basicBlock (cs : List Char) : Nat → Option (List Char × List Char)
  | 0 => none
  | fuel + 1 =>
    match closing '"' cs with
    | some closed => some closed
    | none =>
      match cs with
      | '\\' :: rest =>
        match skipLineEnd rest with
        | some rest => basicBlock rest fuel
        | none =>
          (escape rest).bind fun (c, rest) =>
            (basicBlock rest fuel).map fun (t, r) => (c :: t, r)
      | '\r' :: '\n' :: rest => (basicBlock rest fuel).map fun (t, r) => ('\n' :: t, r)
      | c :: rest =>
        if isPlain c || c == '\n' then (basicBlock rest fuel).map fun (t, r) => (c :: t, r)
        else none
      | [] => none

/-- The text up to the closing apostrophes of a text over several lines, and what follows them.
`fuel` bounds the characters. -/
def literalBlock (cs : List Char) : Nat → Option (List Char × List Char)
  | 0 => none
  | fuel + 1 =>
    match closing '\'' cs with
    | some closed => some closed
    | none =>
      match cs with
      | '\r' :: '\n' :: rest => (literalBlock rest fuel).map fun (t, r) => ('\n' :: t, r)
      | c :: rest =>
        if isPlain c || c == '\n' then (literalBlock rest fuel).map fun (t, r) => (c :: t, r)
        else none
      | [] => none

/-- The text without one line end in front. -/
def skipNewline (cs : List Char) : List Char := (newline? cs).getD cs

/-- A string in one of its four forms. -/
def string : Reader String := fun cs =>
  (match cs with
    | '"' :: '"' :: '"' :: rest => basicBlock (skipNewline rest) (rest.length + 1)
    | '"' :: rest => basicTail rest
    | '\'' :: '\'' :: '\'' :: rest => literalBlock (skipNewline rest) (rest.length + 1)
    | '\'' :: rest => literalTail rest
    | _ => none).map fun (t, r) => (String.ofList t, r)

/-- The digits of a text to a base, in which single underscores may stand between digits. -/
def digits (base : Nat) (cs : List Char) : Option (List Nat) :=
  let groups := cs.splitOnP (· == '_')
  if groups.any List.isEmpty then none
  else groups.flatten.mapM fun c => (hexDigit? c).filter (· < base)

/-- A decimal number without sign and without a zero too many in front. -/
def decimal (cs : List Char) : Option Nat :=
  (digits 10 cs).bind fun ds =>
    if ds.head? = some 0 ∧ ds.length ≠ 1 then none else some (valueOf 10 ds)

def signed : List Char → Int × List Char
  | '+' :: rest => (1, rest)
  | '-' :: rest => (-1, rest)
  | cs => (1, cs)

/-- Whole numbers lie below this one, and not below its negative: they have sixty-four bits. -/
def integerLimit : Nat := 9223372036854775808

def integer (cs : List Char) : Option Int :=
  let n := match cs with
    | '0' :: 'x' :: rest => (digits 16 rest).map fun ds => (valueOf 16 ds : Int)
    | '0' :: 'o' :: rest => (digits 8 rest).map fun ds => (valueOf 8 ds : Int)
    | '0' :: 'b' :: rest => (digits 2 rest).map fun ds => (valueOf 2 ds : Int)
    | cs => (decimal (signed cs).2).map fun n => (signed cs).1 * n
  n.filter fun n => -(integerLimit : Int) ≤ n ∧ n < integerLimit

/-- The text writes a number with a fraction or an exponent, or one of the numbers that have only a
name. -/
def isFloat (cs : List Char) : Bool :=
  let body := (signed cs).2
  body == "inf".toList || body == "nan".toList ||
    let (mantissa, exponent) := (body.takeWhile fun c => c != 'e' && c != 'E',
      body.dropWhile fun c => c != 'e' && c != 'E')
    let whole := mantissa.takeWhile (· != '.')
    let fraction := mantissa.dropWhile (· != '.')
    (decimal whole).isSome && !(fraction.isEmpty && exponent.isEmpty) &&
      (fraction.isEmpty || (digits 10 fraction.tail).isSome) &&
      (exponent.isEmpty || (digits 10 (signed exponent.tail).2).isSome)

/-- The number of the `n` decimal digits in front, and what follows them. -/
def fixed (n : Nat) (cs : List Char) : Option (Nat × List Char) :=
  let ds := cs.take n
  if ds.length = n ∧ ds.all Char.isDigit then
    some (valueOf 10 (ds.map fun c => c.toNat - 48), cs.drop n)
  else none

def monthLength (year month : Nat) : Nat :=
  if month = 2 then
    if year % 4 = 0 ∧ (year % 100 ≠ 0 ∨ year % 400 = 0) then 29 else 28
  else if month = 4 ∨ month = 6 ∨ month = 9 ∨ month = 11 then 30 else 31

def dateTail (cs : List Char) : Option (List Char) := do
  let (year, cs) ← fixed 4 cs
  let '-' :: cs := cs | none
  let (month, cs) ← fixed 2 cs
  let '-' :: cs := cs | none
  let (day, cs) ← fixed 2 cs
  guard (1 ≤ month ∧ month ≤ 12 ∧ 1 ≤ day ∧ day ≤ monthLength year month)
  return cs

def timeTail (cs : List Char) : Option (List Char) := do
  let (hour, cs) ← fixed 2 cs
  let ':' :: cs := cs | none
  let (minute, cs) ← fixed 2 cs
  let ':' :: cs := cs | none
  let (second, cs) ← fixed 2 cs
  guard (hour ≤ 23 ∧ minute ≤ 59 ∧ second ≤ 60)
  match cs with
  | '.' :: rest => if rest.head?.any Char.isDigit then return rest.dropWhile Char.isDigit else none
  | _ => return cs

/-- The text is empty or writes the distance of a local time. -/
def isOffset (cs : List Char) : Bool :=
  match cs with
  | [] | ['Z'] | ['z'] => true
  | sign :: h :: i :: ':' :: m :: [n] =>
    (sign == '+' || sign == '-') && (fixed 2 [h, i]).any (·.1 ≤ 23) &&
      (fixed 2 [m, n]).any (·.1 ≤ 59)
  | _ => false

def isDate (cs : List Char) : Bool :=
  match dateTail cs with
  | some [] => true
  | some (c :: rest) =>
    (c == 'T' || c == 't' || c == ' ') && (timeTail rest).any isOffset
  | none => timeTail cs == some []

/-- A character of numbers and dates. -/
def continuesScalar (c : Char) : Bool :=
  c.isAlphanum || c == '+' || c == '-' || c == '_' || c == '.' || c == ':'

/-- The text of the number or the date in front, and what follows it. A space stands between a date
and a time. -/
def scalarText (cs : List Char) : List Char × List Char :=
  let first := cs.takeWhile continuesScalar
  match cs.dropWhile continuesScalar with
  | ' ' :: c :: rest =>
    if dateTail first = some [] ∧ c.isDigit then
      (first ++ ' ' :: (c :: rest).takeWhile continuesScalar, (c :: rest).dropWhile continuesScalar)
    else (first, ' ' :: c :: rest)
  | rest => (first, rest)

/-- The value that the text of a number, a date or a truth value writes. -/
def scalarOf (cs : List Char) : Option Value :=
  if cs = "true".toList then some (.boolean true)
  else if cs = "false".toList then some (.boolean false)
  else if isDate cs then some .date
  else if isFloat cs then some .float
  else (integer cs).map .integer

def scalar : Reader Value := fun cs =>
  (scalarOf (scalarText cs).1).map fun v => (v, (scalarText cs).2)

end JpaScaffold.Toml
