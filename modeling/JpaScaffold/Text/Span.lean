/-!
Sets of characters given by ranges of code points, and the blank characters.
-/
namespace JpaScaffold.Text

/-- The code points `first`, `first + step`, `first + 2 * step` and so on up to `last`. -/
structure Span where
  first : Nat
  last : Nat
  step : Nat
  deriving DecidableEq

def Span.contains (s : Span) (c : Char) : Bool :=
  s.first ≤ c.toNat && c.toNat ≤ s.last && (c.toNat - s.first) % s.step == 0

def inSpans (spans : List Span) (c : Char) : Bool := spans.any (·.contains c)

/-- Whether one of the ranges, ends included, holds the character. -/
def inRanges (ranges : List (Nat × Nat)) (c : Char) : Bool :=
  ranges.any fun r => r.1 ≤ c.toNat && c.toNat ≤ r.2

/-- A blank: any character with the property White_Space. -/
def isBlank (c : Char) : Bool :=
  c == ' ' || (9 ≤ c.val && c.val ≤ 13) || c.val == 0x85 || c.val == 0xa0 || c.val == 0x1680 ||
  (0x2000 ≤ c.val && c.val ≤ 0x200a) || c.val == 0x2028 || c.val == 0x2029 || c.val == 0x202f ||
  c.val == 0x205f || c.val == 0x3000

end JpaScaffold.Text
