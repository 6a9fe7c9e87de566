import JpaScaffold.Programs.Program

/-!
The program `tr`: it replaces, deletes or squeezes single bytes.
-/
namespace JpaScaffold.Programs.Transliterate

def octalDigit (b : UInt8) : Option Nat :=
  if 48 ≤ b ∧ b ≤ 55 then some (b.toNat - 48) else none

/-- The byte that an escape writes, from the bytes behind its backslash, and the bytes behind it. -/
def escape : List UInt8 → UInt8 × List UInt8
  | [] => (92, [])
  | b :: rest =>
    match octalDigit b with
    | some d =>
      let more := (rest.take 2).takeWhile fun b => (octalDigit b).isSome
      let value := more.foldl (fun n b => 8 * n + (b.toNat - 48)) d
      if value < 256 then (.ofNat value, rest.drop more.length)
      else (.ofNat (value / 8), rest.drop 1)
    | none =>
      match Char.ofNat b.toNat with
      | 'a' => (7, rest)
      | 'b' => (8, rest)
      | 'f' => (12, rest)
      | 'n' => (10, rest)
      | 'r' => (13, rest)
      | 't' => (9, rest)
      | 'v' => (11, rest)
      | _ => (b, rest)

def span (first last : UInt8) : List UInt8 :=
  (List.range (last.toNat + 1 - first.toNat)).map fun i => .ofNat (first.toNat + i)

def named : List (String × List UInt8) := [
  ("[:lower:]", span 97 122), ("[:upper:]", span 65 90), ("[:digit:]", span 48 57),
  ("[:alpha:]", span 65 90 ++ span 97 122), ("[:alnum:]", span 48 57 ++ span 65 90 ++ span 97 122),
  ("[:space:]", span 9 13 ++ [32]), ("[:blank:]", [9, 32]),
  ("[:punct:]", span 33 47 ++ span 58 64 ++ span 91 96 ++ span 123 126),
  ("[:cntrl:]", span 0 31 ++ [127]), ("[:print:]", span 32 126), ("[:graph:]", span 33 126),
  ("[:xdigit:]", span 48 57 ++ span 65 70 ++ span 97 102)]

/-- The class at the front, and the bytes behind it. -/
def namedAt (bs : List UInt8) : Option (List UInt8 × List UInt8) :=
  (named.find? fun c => (Text.utf8 c.1.toList).isPrefixOf bs).map fun c =>
    (c.2, bs.drop c.1.length)

/-- The byte at the front, written as itself or by an escape. -/
def single (b : UInt8) (rest : List UInt8) : UInt8 × List UInt8 :=
  if b = 92 then escape rest else (b, rest)

/-- The bytes that a set writes. `fuel` bounds their number. -/
def setFrom (bs : List UInt8) : Nat → List UInt8
  | 0 => []
  | fuel + 1 =>
    match bs with
    | [] => []
    | b :: rest =>
      match namedAt (b :: rest) with
      | some (members, rest) => members ++ setFrom rest fuel
      | none =>
        match single b rest with
        | (first, 45 :: e :: rest) =>
          let (last, rest) := single e rest
          span first last ++ setFrom rest fuel
        | (first, rest) => first :: setFrom rest fuel

def set (text : String) : List UInt8 :=
  let bs := Text.utf8 text.toList
  setFrom bs bs.length

structure Options where
  complement : Bool := false
  delete : Bool := false
  squeeze : Bool := false
  truncate : Bool := false

def Options.add (o : Options) (c : Char) : Option Options :=
  if c = 'c' ∨ c = 'C' then some { o with complement := true }
  else if c = 'd' then some { o with delete := true }
  else if c = 's' then some { o with squeeze := true }
  else if c = 't' then some { o with truncate := true }
  else none

/-- The options in front of the sets, and the sets. -/
def Options.read (o : Options) : List String → Option (Options × List String)
  | [] => some (o, [])
  | a :: rest =>
    match a.toList with
    | '-' :: c :: letters =>
      if a = "--" then some (o, rest)
      else ((c :: letters).foldlM Options.add o).bind fun o => read o rest
    | _ => some (o, a :: rest)

/-- The byte for `b`: the one at its last place in the first set, taken from the second set, whose
last byte stands for all places behind its end. -/
def replacement (first second : List UInt8) (b : UInt8) : UInt8 :=
  match first.reverse.idxOf? b with
  | none => b
  | some i => second.getD (first.length - 1 - i) (second.getLastD b)

/-- One byte for each run of a byte of the set. -/
def squeezeRuns (members : List UInt8) : List UInt8 → List UInt8
  | b :: c :: rest =>
    if b = c ∧ members.contains b then squeezeRuns members (c :: rest)
    else b :: squeezeRuns members (c :: rest)
  | bs => bs

def others (members : List UInt8) : List UInt8 :=
  (span 0 255).filter fun b => !members.contains b

/-- The output for an input, or a report. -/
def output (o : Options) (sets : List String) (input : List UInt8) : Except String (List UInt8) :=
  let sourceSet (text : String) := if o.complement then others (set text) else set text
  match sets with
  | [] => .error (missingOperand "tr")
  | [first] =>
    let members := sourceSet first
    if o.delete && !o.squeeze then .ok (input.filter fun b => !members.contains b)
    else if o.squeeze && !o.delete then .ok (squeezeRuns members input)
    else .error ("tr: missing operand after '" ++ first ++ "'\n" ++
      (if o.delete then "Two strings must be given when both deleting and squeezing repeats."
        else "Two strings must be given when translating.") ++
      "\nTry 'tr --help' for more information.")
  | [first, second] =>
    let members := sourceSet first
    let targets := set second
    if o.delete then
      if o.squeeze then
        .ok (squeezeRuns targets (input.filter fun b => !members.contains b))
      else .error ("tr: extra operand '" ++ second ++ "'\n" ++
        "Only one string may be given when deleting without squeezing repeats.\n" ++
        "Try 'tr --help' for more information.")
    else if targets.isEmpty && !members.isEmpty && !o.truncate then
      .error "tr: when not truncating set1, string2 must be non-empty"
    else
      let members := if o.truncate then members.take targets.length else members
      let replaced := input.map (replacement members targets)
      .ok (if o.squeeze then squeezeRuns targets replaced else replaced)
  | _ :: _ :: extra :: _ =>
    .error ("tr: extra operand '" ++ extra ++ "'\nTry 'tr --help' for more information.")

def run : Program := fun args input =>
  match Options.read {} args with
  | none => failWith "tr: invalid option\nTry 'tr --help' for more information." input
  | some (o, sets) =>
    match output o sets input with
    | .ok bytes => { status := 0, output := bytes }
    | .error report => failWith report input

end JpaScaffold.Programs.Transliterate
