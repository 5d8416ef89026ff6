/-!
# Doubles as whole numbers of units

Every finite binary64 number is a whole multiple of the smallest positive one,
which is two to the power -1074.  That multiple is called its *units*.  Counting
in units turns comparisons, scaling and rounding of doubles into arithmetic on
`Nat`, without exponents and without a special case for subnormal numbers.

* `magnitude` is the bit pattern without its sign, and `units` counts what such
  a pattern stands for.
* `nearest` goes the other way: the pattern of the double nearest to a fraction.

The magnitudes are ordered as the numbers they stand for, with infinity directly
above the largest finite one.  This is why `nearest` can add a step number and a
rounded count: a count that rounds up to the next power of two carries into the
exponent by itself.
-/

namespace Calculator.Binary64

/-! ## Bit patterns -/

/-- The sign bit. -/
def signBit : Nat := 0x8000000000000000

/-- The lowest bit of the exponent.  The fraction is below it, and in the count
of a normal number it is the leading place that the pattern does not show. -/
def exponentBit : Nat := 0x10000000000000

/-- The magnitude of infinity.  Smaller magnitudes are finite, larger ones are
NaN. -/
def infinite : Nat := 0x7FF * exponentBit

/-- The magnitude of the NaN that stands for all of them. -/
def notANumber : Nat := infinite + exponentBit / 2

/-- The bit pattern of `x` without its sign bit. -/
def magnitude (x : Float) : Nat := x.toBits.toNat % signBit

/-- Whether the sign bit of `x` is set. -/
def isNegative (x : Float) : Bool := signBit ≤ x.toBits.toNat

/-- The double with a sign and a magnitude. -/
def ofMagnitude (negative : Bool) (magnitude : Nat) : Float :=
  Float.ofBits (UInt64.ofNat (if negative then signBit + magnitude else magnitude))

/-! ## Units -/

/-- The number of units in one. -/
def unitsInOne : Nat := Nat.pow 2 1074

/-- The binary places of one in units. -/
def onePlaces : Nat := 1074

/-- The number of units a finite magnitude stands for: the fraction alone while
the exponent is zero, and from there on the fraction with its leading place,
doubled for every further step of the exponent. -/
def units (magnitude : Nat) : Nat :=
  let exponent := magnitude / exponentBit
  let fraction := magnitude % exponentBit
  if exponent = 0 then fraction else (exponentBit + fraction) * Nat.pow 2 (exponent - 1)

/-- `num / den` rounded to a whole number; a tie goes to the even neighbour. -/
def roundEven (num den : Nat) : Nat :=
  let quotient := num / den
  let rest := num % den
  if 2 * rest < den ∨ (2 * rest = den ∧ quotient % 2 = 0) then quotient else quotient + 1

/-- The magnitude of the double nearest to `num / den`, for a positive `den`.
A tie goes to the even pattern, and a value that rounds past the largest finite
double gives infinity.

The value has `scaled / den` units.  `step` is the number of low binary places
that do not fit the 53 places of a double, and the rest is rounded to a whole
number of the units of that step. -/
def nearest (num den : Nat) : Nat :=
  let scaled := num * unitsInOne
  let step := (scaled / den).log2 - 52
  min (step * exponentBit + roundEven scaled (den * Nat.pow 2 step)) infinite

end Calculator.Binary64
