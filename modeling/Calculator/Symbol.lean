import Calculator.Binary64.CubeRoot

/-!
# Operators, named functions and constants

The fixed vocabulary of a formula: five binary operators, fourteen named
functions of one argument, and two named constants.  Each has its written form
and its meaning on binary64 numbers.

* `Operator.precedence` decides how a row of operators is grouped; operators of
  one precedence group to the left, `^` included.
* `Fn.table` is the standard table of function names, in its fixed order.  A
  caller may read formulas with a table of its own instead; only the lexer
  looks at the table.

Meanings are those of IEEE arithmetic and of the platform's mathematical
functions, except that the cube root is rounded exactly.  Nothing here rejects a
division by zero or a logarithm of a negative number: the result is an infinity
or a NaN.
-/

namespace Calculator

/-! ## Operators -/

/-- A binary operator. -/
inductive Operator where
  | add
  | sub
  | mul
  | div
  | pow
  deriving DecidableEq

namespace Operator

/-- The character an operator is written with. -/
def symbol : Operator → Char
  | add => '+'
  | sub => '-'
  | mul => '*'
  | div => '/'
  | pow => '^'

/-- The operator a character is written for, if any. -/
def ofChar? : Char → Option Operator
  | '+' => some add
  | '-' => some sub
  | '*' => some mul
  | '/' => some div
  | '^' => some pow
  | _ => none

/-- Binding strength: an operator of higher precedence takes its operands first. -/
def precedence : Operator → Nat
  | add | sub => 1
  | mul | div => 2
  | pow => 3

/-- The operator's result on two numbers. -/
def eval : Operator → Float → Float → Float
  | add, x, y => x + y
  | sub, x, y => x - y
  | mul, x, y => x * y
  | div, x, y => x / y
  | pow, x, y => x.pow y

/-- Reading an operator's symbol gives the operator back. -/
@[simp] theorem ofChar?_symbol (op : Operator) : ofChar? op.symbol = some op := by
  cases op <;> rfl

/-- A character reads as an operator only if it is that operator's symbol. -/
theorem ofChar?_eq_some_iff {c : Char} {op : Operator} :
    ofChar? c = some op ↔ c = op.symbol := by
  constructor
  · intro h
    unfold ofChar? at h
    split at h <;> simp_all <;> subst h <;> rfl
  · rintro rfl
    exact ofChar?_symbol op

end Operator

/-! ## Named functions -/

/-- A named function of one argument. -/
inductive Fn where
  | sin
  | cos
  | tan
  | asin
  | acos
  | atan
  | sinh
  | cosh
  | tanh
  | sqrt
  | cbrt
  | log
  | ln
  | abs
  deriving DecidableEq

namespace Fn

/-- The name a function is printed with, and the name the standard table has
for it. -/
def name : Fn → String
  | sin => "sin"
  | cos => "cos"
  | tan => "tan"
  | asin => "asin"
  | acos => "acos"
  | atan => "atan"
  | sinh => "sinh"
  | cosh => "cosh"
  | tanh => "tanh"
  | sqrt => "sqrt"
  | cbrt => "cbrt"
  | log => "log"
  | ln => "ln"
  | abs => "abs"

/-- Every named function, in the order of the standard table. -/
def all : List Fn :=
  [sin, cos, tan, asin, acos, atan, sinh, cosh, tanh, sqrt, cbrt, log, ln, abs]

/-- The standard table: every function under its own name. -/
def table : List (String × Fn) := all.map fun f => (f.name, f)

/-- The function's result on a number.  `log` is the logarithm to base ten and
`ln` the natural one; angles are in radians. -/
def eval : Fn → Float → Float
  | sin, x => x.sin
  | cos, x => x.cos
  | tan, x => x.tan
  | asin, x => x.asin
  | acos, x => x.acos
  | atan, x => x.atan
  | sinh, x => x.sinh
  | cosh, x => x.cosh
  | tanh, x => x.tanh
  | sqrt, x => x.sqrt
  | cbrt, x => Binary64.cubeRoot x
  | log, x => x.log10
  | ln, x => x.log
  | abs, x => x.abs

/-- No function is missing from the list of all functions. -/
theorem mem_all (f : Fn) : f ∈ all := by
  cases f <;> decide

/-- Two functions with one name are the same function. -/
theorem name_injective {f g : Fn} (h : f.name = g.name) : f = g := by
  cases f <;> cases g <;> simp_all [name]

end Fn

/-! ## Constants -/

/-- A named mathematical constant. -/
inductive Constant where
  | pi
  | e
  deriving DecidableEq

namespace Constant

/-- The name a constant is written with. -/
def name : Constant → String
  | pi => "pi"
  | e => "e"

/-- Every constant. -/
def all : List Constant := [pi, e]

/-- The double nearest to the constant. -/
def value : Constant → Float
  | pi => Float.ofBits 0x400921FB54442D18
  | e => Float.ofBits 0x4005BF0A8B145769

end Constant

end Calculator
