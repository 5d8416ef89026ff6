import Calculator.Binary64.Units

/-!
# Decimals and doubles

A decimal is a whole number of digits with a power of ten.  This module goes
between decimals and doubles in both directions:

* `Decimal.nearest` is the double that a decimal reads as;
* `shortest` is the decimal with the fewest digits that reads as a given double,
  and among those the nearest to it.

`Decimal.text` lays a decimal out positionally, without an exponent.
-/

namespace Calculator.Binary64

/-- `digits` times ten to the power `exponent`. -/
structure Decimal where
  digits : Nat
  exponent : Int

namespace Decimal

/-- The magnitude of the double nearest to a decimal, with the rounding of
`Binary64.nearest`.

Two comparisons keep the powers of ten small.  With any digit at all, an exponent
of 309 is past the largest finite double.  And since ten is more than two to the
third, a negative exponent of more than a third of the digits' binary length plus
1076 leaves less than half a unit. -/
def nearest (d : Decimal) : Nat :=
  let places := (-d.exponent).toNat
  if d.digits = 0 then 0
  else if 308 < d.exponent then infinite
  else if 0 ≤ d.exponent then Binary64.nearest (d.digits * Nat.pow 10 d.exponent.toNat) 1
  else if d.digits.log2 + 1076 < 3 * places then 0
  else Binary64.nearest d.digits (Nat.pow 10 places)

/-- The digits behind the point of a fraction with the given number of places, up
to the last one that is not zero. -/
def fractionDigits (fraction places : Nat) : List Char :=
  let digits := Nat.toDigits 10 fraction
  let padded := List.replicate (places - digits.length) '0' ++ digits
  (padded.reverse.dropWhile (· = '0')).reverse

/-- The decimal in positional notation: all digits before the point, and a point
only where a digit other than zero follows it. -/
def text (d : Decimal) : String :=
  let places := (-d.exponent).toNat
  let whole := toString (d.digits * Nat.pow 10 d.exponent.toNat / Nat.pow 10 places)
  match fractionDigits (d.digits % Nat.pow 10 places) places with
  | [] => whole
  | digits => whole ++ "." ++ String.ofList digits

end Decimal

/-! ## The fewest digits that read back -/

/-- The places of the fine decimal grid the search starts from.  Even the smallest
positive double has more than seventeen digits on it. -/
def finePlaces : Nat := 342

/-- A count of units on the fine grid, before division by the units in one. -/
def scaledFine (magnitude : Nat) : Nat := units magnitude * Nat.pow 10 finePlaces

/-- The decimal of `count` digits that reads as `magnitude`, if there is one
among the two decimals of that many digits around the value; the nearer one if
both do, and the larger one if they are equally near.

`length` is the number of digits of the value on the fine grid. -/
def readsBackWith (magnitude length count : Nat) : Option Decimal :=
  let grid := Nat.pow 10 (length - count)
  let lower := scaledFine magnitude / unitsInOne / grid
  let exponent : Int := (length : Int) - count - finePlaces
  let below : Decimal := ⟨lower, exponent⟩
  let above : Decimal := ⟨lower + 1, exponent⟩
  let belowReads := below.nearest = magnitude
  let aboveReads := above.nearest = magnitude
  let belowNearer := 2 * scaledFine magnitude < (2 * lower + 1) * grid * unitsInOne
  if belowReads ∧ (belowNearer ∨ ¬ aboveReads) then some below
  else if aboveReads then some above
  else none

/-- The exact decimal value of a count of units. -/
def exact (magnitude : Nat) : Decimal := ⟨units magnitude * Nat.pow 5 1074, -1074⟩

/-- The decimal with the fewest digits that reads as a positive finite double.
Seventeen digits always suffice; behind the search stands the exact value. -/
def shortest (magnitude : Nat) : Decimal :=
  let length := (Nat.toDigits 10 (scaledFine magnitude / unitsInOne)).length
  ((List.range' 1 17).findSome? (readsBackWith magnitude length)).getD (exact magnitude)

end Calculator.Binary64
