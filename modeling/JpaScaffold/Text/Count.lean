/-!
Numbers of sixty-four bits in decimal digits.
-/
namespace JpaScaffold.Text

/-- The first number that has no place in sixty-four bits. -/
def countLimit : Nat := 18446744073709551616

def digitsValue (cs : List Char) : Nat := cs.foldl (fun n c => 10 * n + (c.toNat - '0'.toNat)) 0

/-- The number that digits write, with a plus sign in front at will. -/
def readCount (cs : List Char) : Option Nat :=
  let digits := if cs.head? = some '+' then cs.tail else cs
  if digits.isEmpty || !digits.all Char.isDigit then none
  else if digitsValue digits < countLimit then some (digitsValue digits) else none

end JpaScaffold.Text
