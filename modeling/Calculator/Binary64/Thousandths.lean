import Calculator.Numeral

/-!
# Rounding to thousandths

The result of a formula is reported with three decimal places.  The double is turned
into a decimal, the decimal is rounded and written, and its text is read as a double
again.

`Decimals` has what this needs of a type of decimals, and `SignedDecimal` is one such
type.  Its decimals are exact, so that a tie is a tie of the double itself.
-/

namespace Calculator.Binary64

/-- A sign and some digits, with the point in front of the last `places` of them.
Zero has a sign, too. -/
structure SignedDecimal where
  negative : Bool
  digits : Nat
  places : Nat

/-- Decimals that doubles can be rounded in. -/
class Decimals where
  /-- The type of the decimals. -/
  Carrier : Type
  /-- What a decimal stands for. -/
  parts (d : Carrier) : SignedDecimal
  /-- The decimal for a double, unless its magnitude is too large. -/
  ofFloat? (x : Float) : Option Carrier
  /-- A decimal rounded to a number of decimal places, a tie away from zero. -/
  round (places : Nat) (d : Carrier) : Carrier
  /-- A decimal as it is written. -/
  text (d : Carrier) : String

/-- `x` rounded to three decimal places.  NaN and the infinities are returned as they
are, and so is a number that there is no decimal for. -/
def roundThousandths [Decimals] (x : Float) : Float :=
  if x.isFinite then
    (((Decimals.ofFloat? x).map (Decimals.round 3)).bind fun d =>
      Numeral.read? (Decimals.text d).toList).getD x
  else x

/-- The count of units from which on there is no decimal: two to the power 96. -/
def roundingLimit : Nat := Nat.pow 2 96 * unitsInOne

/-- Whether a count of units is so small that nothing of it is left once it is
written with 28 decimal places, the digits behind them rounded off one at a time
from the right.  In the 29th place, that is the case below 85/9. -/
def vanishes (units : Nat) : Bool :=
  9 * Nat.pow 10 29 * units < 85 * unitsInOne

namespace SignedDecimal

/-- The exact decimal for a double below the limit, or a zero of its sign if it
vanishes. -/
def ofFloat? (x : Float) : Option SignedDecimal :=
  let count := units (magnitude x)
  if roundingLimit ≤ count then none
  else if vanishes count then some ⟨isNegative x, 0, 0⟩
  else some ⟨isNegative x, count * Nat.pow 5 onePlaces, onePlaces⟩

/-- A decimal rounded to a number of places.  Zero keeps its sign, and what becomes
zero loses it. -/
def round (places : Nat) (d : SignedDecimal) : SignedDecimal :=
  if d.digits = 0 then ⟨d.negative, 0, places⟩
  else
    let one := Nat.pow 10 d.places
    let digits := (2 * (d.digits * Nat.pow 10 places) + one) / (2 * one)
    ⟨d.negative && digits != 0, digits, places⟩

/-- The digits, with zeros in front of them until there is one before the point. -/
def row (d : SignedDecimal) : List Char :=
  let digits := Nat.toDigits 10 d.digits
  List.replicate (d.places + 1 - digits.length) '0' ++ digits

/-- The row of digits with its point, and with a sign in front if it is negative. -/
def text (d : SignedDecimal) : String :=
  let whole := d.row.length - d.places
  let unsigned := d.row.take whole ++ '.' :: d.row.drop whole
  String.ofList (if d.negative then '-' :: unsigned else unsigned)

end SignedDecimal

instance : Decimals where
  Carrier := SignedDecimal
  parts d := d
  ofFloat? := SignedDecimal.ofFloat?
  round := SignedDecimal.round
  text := SignedDecimal.text

end Calculator.Binary64
