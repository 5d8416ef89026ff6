import Calculator.Numeral
import Calculator.Symbol

/-!
# Expressions

An expression is a tree of operators and functions over numbers, constants and
one variable.

* `Expr.eval` is its value at a number put for the variable.
* `Expr.label` is the text of its root alone.
-/

namespace Calculator

/-- An expression in one variable. -/
inductive Expr where
  | numeral (n : Numeral)
  | constant (c : Constant)
  /-- The variable. -/
  | var
  | binary (op : Operator) (left right : Expr)
  | call (f : Fn) (arg : Expr)

namespace Expr

/-- The value of an expression where the variable has the value `x`. -/
def eval (x : Float) : Expr → Float
  | numeral n => n.value
  | constant c => c.value
  | var => x
  | binary op left right => op.eval (left.eval x) (right.eval x)
  | call f arg => f.eval (arg.eval x)

/-- The text of the root of an expression. -/
def label : Expr → String
  | numeral n => n.text
  | constant c => c.name
  | var => "x"
  | binary op _ _ => String.singleton op.symbol
  | call f _ => f.name

/-- The left operand of an operator, or the argument of a function. -/
def left? : Expr → Option Expr
  | binary _ left _ => some left
  | call _ arg => some arg
  | _ => none

/-- The right operand of an operator. -/
def right? : Expr → Option Expr
  | binary _ _ right => some right
  | _ => none

/-- Whether an expression has no operands. -/
def isLeaf : Expr → Bool
  | binary .. | call .. => false
  | _ => true

/-- Whether two expressions are equal, with the equality of `Numeral` on
numerals. -/
def beq : Expr → Expr → Bool
  | numeral m, numeral n => m == n
  | constant c, constant d => c == d
  | var, var => true
  | binary p a b, binary q c d => p == q && a.beq c && b.beq d
  | call f a, call g b => f == g && a.beq b
  | _, _ => false

instance : BEq Expr where
  beq := beq

end Expr

end Calculator
