/-!
UTF-8: the bytes of a text, and the text of bytes with the place of the first fault.
-/
namespace JpaScaffold.Text

def utf8 (cs : List Char) : List UInt8 := cs.flatMap String.utf8EncodeChar

/-- What is wrong with bytes: a sequence that no bytes behind it could complete, or an end within a
sequence. -/
inductive Utf8Fault where
  | invalid (length index : Nat)
  | incomplete (index : Nat)
  deriving DecidableEq

def Utf8Fault.message : Utf8Fault → String
  | invalid length index =>
    "invalid utf-8 sequence of " ++ toString length ++ " bytes from index " ++ toString index
  | incomplete index => "incomplete utf-8 byte sequence from index " ++ toString index

/-- The second bytes that may follow the first byte of a sequence, and the number of bytes behind
them. -/
def secondBytes (first : Nat) : Option (Nat × Nat × Nat) :=
  if 0xc2 ≤ first ∧ first ≤ 0xdf then some (0x80, 0xbf, 0)
  else if first = 0xe0 then some (0xa0, 0xbf, 1)
  else if first = 0xed then some (0x80, 0x9f, 1)
  else if 0xe1 ≤ first ∧ first ≤ 0xef then some (0x80, 0xbf, 1)
  else if first = 0xf0 then some (0x90, 0xbf, 2)
  else if 0xf1 ≤ first ∧ first ≤ 0xf3 then some (0x80, 0xbf, 2)
  else if first = 0xf4 then some (0x80, 0x8f, 2)
  else none

/-- The bytes of the sequence at the front. On a fault `error` tells how many of the bytes belong to
it, and whether the end came too early. -/
def sequenceLength : List Nat → Except (Nat × Bool) Nat
  | [] => .ok 0
  | first :: rest =>
    if first < 0x80 then .ok 1
    else
      match secondBytes first with
      | none => .error (1, false)
      | some (low, high, more) =>
        match rest with
        | [] => .error (1, true)
        | second :: rest =>
          if second < low ∨ high < second then .error (1, false)
          else
            let tail := (rest.take more).takeWhile fun b => 0x80 ≤ b ∧ b ≤ 0xbf
            if tail.length = more then .ok (more + 2)
            else .error (tail.length + 2, rest.length = tail.length)

def sequenceChar : List Nat → Char
  | [a] => .ofNat a
  | [a, b] => .ofNat (a % 0x20 * 0x40 + b % 0x40)
  | [a, b, c] => .ofNat (a % 0x10 * 0x1000 + b % 0x40 * 0x40 + c % 0x40)
  | [a, b, c, d] => .ofNat (a % 8 * 0x40000 + b % 0x40 * 0x1000 + c % 0x40 * 0x40 + d % 0x40)
  | _ => '\uFFFD'

/-- The text of bytes that start at `index`, or the first fault. `fuel` bounds the sequences. -/
def decodeFrom (index : Nat) (bytes : List Nat) : Nat → Except Utf8Fault (List Char)
  | 0 => .ok []
  | fuel + 1 =>
    match bytes with
    | [] => .ok []
    | _ =>
      match sequenceLength bytes with
      | .error (_, true) => .error (.incomplete index)
      | .error (n, false) => .error (.invalid n index)
      | .ok n =>
        (decodeFrom (index + n) (bytes.drop n) fuel).map (sequenceChar (bytes.take n) :: ·)

/-- The text of bytes, or the first fault. -/
def decodeUtf8 (bytes : List UInt8) : Except Utf8Fault (List Char) :=
  decodeFrom 0 (bytes.map UInt8.toNat) bytes.length

/-- The text of bytes, with a replacement character for each faulty sequence. -/
def decodeLossyFrom (bytes : List Nat) : Nat → List Char
  | 0 => []
  | fuel + 1 =>
    match bytes with
    | [] => []
    | _ =>
      match sequenceLength bytes with
      | .error (n, _) => '\uFFFD' :: decodeLossyFrom (bytes.drop n) fuel
      | .ok n => sequenceChar (bytes.take n) :: decodeLossyFrom (bytes.drop n) fuel

/-- The text of bytes, with a replacement character for each faulty sequence. -/
def decodeLossy (bytes : List UInt8) : List Char :=
  decodeLossyFrom (bytes.map UInt8.toNat) bytes.length

end JpaScaffold.Text
