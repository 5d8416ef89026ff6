import Calculator.Numeral
import Calculator.Symbol

/-!
# Tokens

The units a formula is made of, on its way from text to expression.  One type
serves all stages, because each stage takes any list of tokens and says itself
which lists it accepts:

* read from text, a formula is in infix order, each digit is a token of its own,
  and functions have no argument yet;
* in reverse Polish order every function token carries its argument, again in
  reverse Polish order, and each number is followed by a `space`;
* with its digits joined, each number is one `literal` and no `space` is left.

A function's parentheses are kept apart from those that only group.
-/

namespace Calculator

/-- A unit of a formula. -/
inductive Token where
  /-- One decimal digit of a number. -/
  | digit (d : Fin 10)
  /-- The decimal point. -/
  | point
  /-- The sign of the number that follows. -/
  | negative
  /-- A complete number. -/
  | literal (n : Numeral)
  | constant (c : Constant)
  /-- The variable of the formula. -/
  | var
  | operator (op : Operator)
  /-- A function with its argument in reverse Polish order. -/
  | fn (f : Fn) (arg : List Token)
  /-- White space, or the end of a number's digits. -/
  | space
  /-- An opening parenthesis that groups. -/
  | openGroup
  /-- A closing parenthesis that groups. -/
  | closeGroup
  /-- The opening parenthesis of a function's argument. -/
  | openCall
  /-- The closing parenthesis of a function's argument. -/
  | closeCall

namespace Token

/-! ## What a token is written as -/

/-- The text of a token.  A function is written as its name alone. -/
def spelling : Token → String
  | digit d => String.singleton (Nat.digitChar d)
  | point => "."
  | negative => "-"
  | literal n => n.text
  | constant c => c.name
  | var => "x"
  | operator op => String.singleton op.symbol
  | fn f _ => f.name
  | space => " "
  | openGroup | openCall => "("
  | closeGroup | closeCall => ")"

/-- The number a digit, a literal or a constant stands for by itself. -/
def value? : Token → Option Float
  | digit d => some (Float.ofNat d)
  | literal n => some n.value
  | constant c => some c.value
  | _ => none

/-- The argument a function token carries. -/
def argument? : Token → Option (List Token)
  | fn _ arg => some arg
  | _ => none

/-! ## Kinds of tokens -/

/-- The digits and the point, the parts of a number's text after its sign. -/
def isNumberPart : Token → Bool
  | digit _ | point => true
  | _ => false

/-- Whether the token is the sign of a number. -/
def isNegative : Token → Bool
  | negative => true
  | _ => false

/-- The tokens that a number directly before them multiplies: the first token of
an operand that is not itself a number. -/
def startsFactor : Token → Bool
  | var | constant _ | fn .. | openGroup => true
  | _ => false

/-- The tokens after which an operand has to come, so that a `-` is a sign. -/
def awaitsOperand : Token → Bool
  | operator _ | openGroup | openCall => true
  | _ => false

/-- Whether the token is white space. -/
def isSpace : Token → Bool
  | space => true
  | _ => false

/-- Whether the token is a function, whose parenthesis comes next. -/
def isFn : Token → Bool
  | fn .. => true
  | _ => false

/-! ## Comparing -/

mutual

/-- Whether two tokens are equal, with the equality of `Numeral` on literals. -/
def beq : Token → Token → Bool
  | digit c, digit d => c == d
  | literal m, literal n => m == n
  | constant c, constant d => c == d
  | operator p, operator q => p == q
  | fn f a, fn g b => f == g && beqList a b
  | point, point => true
  | negative, negative => true
  | var, var => true
  | space, space => true
  | openGroup, openGroup => true
  | closeGroup, closeGroup => true
  | openCall, openCall => true
  | closeCall, closeCall => true
  | _, _ => false

/-- Whether two lists of tokens are equal token by token. -/
def beqList : List Token → List Token → Bool
  | [], [] => true
  | a :: as, b :: bs => a.beq b && beqList as bs
  | _, _ => false

end

instance : BEq Token where
  beq := beq

end Token

end Calculator
