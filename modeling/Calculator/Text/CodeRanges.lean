/-!
# Sets of characters as ranges

A property of characters is kept as the ranges of code points that have it, each
with both of its ends, in ascending order.
-/

namespace Calculator.Text

/-- Ranges of code points. -/
abbrev CodeRanges := List (Nat × Nat)

namespace CodeRanges

/-- Whether the code point of a character is in one of the ranges. -/
def contains (ranges : CodeRanges) (c : Char) : Bool :=
  ranges.any fun range => range.1 ≤ c.toNat && c.toNat ≤ range.2

/-- Whether the ranges are ascending and apart. -/
def isOrdered : CodeRanges → Bool
  | [] => true
  | [range] => range.1 ≤ range.2
  | range :: next :: ranges =>
    range.1 ≤ range.2 && range.2 + 1 < next.1 && isOrdered (next :: ranges)

/-- The number of code points in the ranges. -/
def size (ranges : CodeRanges) : Nat :=
  ranges.foldl (fun count range => count + (range.2 + 1 - range.1)) 0

end CodeRanges

end Calculator.Text
