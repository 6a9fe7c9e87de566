import JpaScaffold.Programs.Transliterate

/-!
The programs `cat`, `echo`, `printf` and `sleep`.
-/
namespace JpaScaffold.Programs

/-- The output and the reports of `cat` for its arguments, and the input it leaves. -/
def concatenate : List String → List UInt8 → Ended
  | [], input => { status := 0, unread := input }
  | arg :: rest, input =>
    if arg = "-" then
      let ended := concatenate rest []
      { ended with output := input ++ ended.output }
    else if arg = "/dev/null" then concatenate rest input
    else
      let ended := concatenate rest input
      { ended with
        status := 1
        errors := line ("cat: " ++ arg ++ ": No such file or directory") ++ ended.errors }

/-- The program `cat`: it writes its input, and no other file is there. -/
def cat : Program := fun args input => concatenate (if args.isEmpty then ["-"] else args) input

/-- The bytes of a text in which a backslash starts an escape, and whether the text asks to end the
output. -/
def unescape (cs : List Char) : List UInt8 × Bool :=
  match cs with
  | [] => ([], false)
  | '\\' :: 'c' :: _ => ([], true)
  | '\\' :: 'x' :: h :: l :: rest =>
    match hexValue h, hexValue l with
    | some a, some b =>
      let tail := unescape rest
      (.ofNat (16 * a + b) :: tail.1, tail.2)
    | _, _ =>
      let tail := unescape ('x' :: h :: l :: rest)
      (92 :: tail.1, tail.2)
  | '\\' :: '\\' :: rest =>
    let tail := unescape rest
    (92 :: tail.1, tail.2)
  | '\\' :: c :: rest =>
    if c.isDigit || "abfnrtv".contains c then
      let digits := (c :: rest).takeWhile fun c => c.isDigit && c.toNat < 56
      if digits.isEmpty then
        let tail := unescape rest
        ((Transliterate.escape [.ofNat c.toNat]).1 :: tail.1, tail.2)
      else
        let used := digits.take (if c = '0' then 4 else 3)
        let value := used.foldl (fun n d => 8 * n + (d.toNat - 48)) 0
        let tail := unescape (rest.drop (used.length - 1))
        (.ofNat value :: tail.1, tail.2)
    else
      let tail := unescape (c :: rest)
      (92 :: tail.1, tail.2)
  | c :: rest =>
    let tail := unescape rest
    (String.utf8EncodeChar c ++ tail.1, tail.2)
termination_by cs.length
decreasing_by all_goals simp only [List.length_cons, List.length_drop]; omega
where
  /-- The value of a digit to the base sixteen. -/
  hexValue (c : Char) : Option Nat :=
    if c.isDigit then some (c.toNat - 48)
    else if 'a' ≤ c ∧ c ≤ 'f' then some (c.toNat - 87)
    else if 'A' ≤ c ∧ c ≤ 'F' then some (c.toNat - 55)
    else none

def echo : Program := fun args input =>
  let (open_, words) := match args with
    | "-n" :: rest => (true, rest)
    | words => (false, words)
  let (bytes, cut) := unescape (" ".intercalate words).toList
  { status := 0, output := if open_ || cut then bytes else bytes ++ [10], unread := input }

/-- The bytes of a format for some arguments, and the arguments that are left. -/
def formatted : List Char → List String → List UInt8 × List String
  | [], args => ([], args)
  | '%' :: '%' :: rest, args =>
    let tail := formatted rest args
    (37 :: tail.1, tail.2)
  | '%' :: c :: rest, args =>
    if c = 's' ∨ c = 'd' then
      let tail := formatted rest args.tail
      (Text.utf8 (args.headD (if c = 'd' then "0" else "")).toList ++ tail.1, tail.2)
    else
      let tail := formatted (c :: rest) args
      (37 :: tail.1, tail.2)
  | c :: rest, args =>
    let plain := (c :: rest).takeWhile (· ≠ '%')
    if plain.isEmpty then
      let tail := formatted rest args
      (37 :: tail.1, tail.2)
    else
      let (bytes, cut) := unescape plain
      if cut then (bytes, [])
      else
        let tail := formatted (rest.drop (plain.length - 1)) args
        (bytes ++ tail.1, tail.2)
termination_by cs => cs.length
decreasing_by all_goals simp only [List.length_cons, List.length_drop]; omega

/-- The bytes of a format, which is used again as long as it takes arguments. `fuel` bounds the
uses. -/
def formattedAll (format : List Char) (args : List String) : Nat → List UInt8
  | 0 => []
  | fuel + 1 =>
    let (bytes, rest) := formatted format args
    if rest.isEmpty || rest.length = args.length then bytes
    else bytes ++ formattedAll format rest fuel

def printf : Program := fun args input =>
  match args with
  | [] => { status := 2, errors := line "printf: usage: printf format [arg ...]", unread := input }
  | format :: rest =>
    { status := 0, output := formattedAll format.toList rest (rest.length + 1), unread := input }

/-- The number of milliseconds that digits with a point and a unit write. -/
def milliseconds (cs : List Char) : Option Nat :=
  let whole := cs.takeWhile Char.isDigit
  let (fraction, suffix) := match cs.dropWhile Char.isDigit with
    | '.' :: rest => (rest.takeWhile Char.isDigit, rest.dropWhile Char.isDigit)
    | rest => ([], rest)
  let scale := match suffix with
    | [] | ['s'] => some 1
    | ['m'] => some 60
    | ['h'] => some 3600
    | ['d'] => some 86400
    | _ => none
  let value (ds : List Char) := ds.foldl (fun n c => 10 * n + (c.toNat - 48)) 0
  if whole.isEmpty && fraction.isEmpty then none
  else scale.map fun s => s * (1000 * value whole + value ((fraction ++ ['0', '0', '0']).take 3))

/-- The program `sleep`: it waits for the sum of its arguments. -/
def sleep : Program := fun args input =>
  if args.isEmpty then failWith (missingOperand "sleep") input
  else
    match args.mapM fun a => milliseconds a.toList with
    | some times => { status := 0, unread := input, milliseconds := times.foldl (· + ·) 0 }
    | none =>
      failWith ("sleep: invalid time interval '" ++
        ((args.find? fun a => (milliseconds a.toList).isNone).getD "") ++
        "'\nTry 'sleep --help' for more information.") input

/-- The programs by name, without the one that runs others. -/
def simple : List (String × Program) := [
  ("cat", cat), ("tr", Transliterate.run), ("true", endWith 0), ("false", endWith 1),
  ("echo", echo), ("printf", printf), ("sleep", sleep)]

end JpaScaffold.Programs
