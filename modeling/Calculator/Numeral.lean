import Calculator.Binary64.Decimal

/-!
# Numerals

A numeral is a number together with the way it is written.  The text is kept
because it is what a formula is printed with: `2.50` stays `2.50`.

* `Numeral.ofText?` reads a text, and accepts exactly the grammar below.
* `Numeral.ofFloat` writes a number, with the fewest digits that read back.

The grammar of number texts, an optional sign in front of either form:

* digits with at most one point and at least one digit, and then optionally `e`
  or `E` with a whole number that may have a sign;
* `inf`, `infinity` or `nan`, whatever the case of their letters.

A text in this grammar always has a value.  It is the double nearest to the
number written, so a number too large is an infinity and one too small is a
zero of its sign.
-/

namespace Calculator

open Binary64 (Decimal)

/-- A number and its written form. -/
structure Numeral where
  value : Float
  text : String

namespace Numeral

/-! ## Reading -/

/-- The whole number a row of ASCII digits stands for. -/
def wholeNumber (digits : List Char) : Nat :=
  digits.foldl (fun n c => 10 * n + (c.toNat - '0'.toNat)) 0

/-- A sign in front of the text, `-` as `true`, and the text behind it. -/
def splitSign : List Char → Bool × List Char
  | '-' :: cs => (true, cs)
  | '+' :: cs => (false, cs)
  | cs => (false, cs)

/-- The exponent written by the rest of a number text: nothing at all for
exponent zero, or an exponent mark and a whole number. -/
def exponent? : List Char → Option Int
  | [] => some 0
  | mark :: cs =>
    let (negative, digits) := splitSign cs
    if (mark = 'e' ∨ mark = 'E') ∧ digits ≠ [] ∧ digits.all Char.isDigit then
      let n : Int := wholeNumber digits
      some (if negative then -n else n)
    else
      none

/-- The decimal an unsigned number text stands for. -/
def decimal? (cs : List Char) : Option Decimal :=
  let whole := cs.takeWhile Char.isDigit
  let (fraction, rest) := match cs.dropWhile Char.isDigit with
    | '.' :: cs => (cs.takeWhile Char.isDigit, cs.dropWhile Char.isDigit)
    | cs => ([], cs)
  if whole = [] ∧ fraction = [] then none
  else (exponent? rest).map fun e => ⟨wholeNumber (whole ++ fraction), e - fraction.length⟩

/-- The magnitude of a value written as a word. -/
def wordMagnitude? (cs : List Char) : Option Nat :=
  let word := cs.map Char.toLower
  if word = ['i', 'n', 'f'] ∨ word = ['i', 'n', 'f', 'i', 'n', 'i', 't', 'y'] then
    some Binary64.infinite
  else if word = ['n', 'a', 'n'] then
    some Binary64.notANumber
  else
    none

/-- The value of a number text, or `none` if the text is outside the grammar. -/
def read? (cs : List Char) : Option Float :=
  let (negative, cs) := splitSign cs
  ((wordMagnitude? cs).or ((decimal? cs).map Decimal.nearest)).map
    (Binary64.ofMagnitude negative)

/-- The numeral with the given text. -/
def ofText? (text : String) : Option Numeral :=
  (read? text.toList).map (⟨·, text⟩)

/-! ## Writing -/

/-- The text of a magnitude: positional, with the fewest digits that read back. -/
def magnitudeText (magnitude : Nat) : String :=
  if magnitude = 0 then "0"
  else if magnitude = Binary64.infinite then "inf"
  else (Binary64.shortest magnitude).text

/-- The numeral that writes a number.  The sign of zero is written, the sign of
NaN is not. -/
def ofFloat (value : Float) : Numeral :=
  let magnitude := Binary64.magnitude value
  let text :=
    if Binary64.infinite < magnitude then "NaN"
    else if Binary64.isNegative value then "-" ++ magnitudeText magnitude
    else magnitudeText magnitude
  ⟨value, text⟩

/-! ## Comparing -/

/-- Two numerals are equal if both values and texts are.  Values compare as
numbers do: the zeros of either sign are equal, and NaN is not equal to
itself. -/
instance : BEq Numeral where
  beq a b := a.value == b.value && a.text == b.text

end Numeral

end Calculator
