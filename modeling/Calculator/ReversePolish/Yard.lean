import Calculator.ReadError
import Calculator.Token

/-!
# The yard: operators waiting for their operands

Tokens in infix order are put into reverse Polish order one at a time.  An
operand goes to the output at once.  An operator waits in the yard until an
operator that binds less tightly, the end of its group, or the end of its
argument sends it after its operands.

Two things can be left out of a formula and are put in here:

* the multiplication between a number and the operand directly behind it, as in
  `2x`;
* the number in front of a sign that belongs to no number: `-x` is `-1` times
  `x`.

Both are held without sending any waiting operator on, so they take the operand
behind them with its powers, and nothing in front of them.

Every open argument has an output and a held stack of its own.  So no operator
of an argument reaches out of it, and none outside reaches in.
-/

namespace Calculator.ReversePolish

/-- What is held back in the yard. -/
inductive Held where
  | operator (op : Operator)
  /-- The beginning of a group that is still open. -/
  | group
  deriving DecidableEq

/-- The state between two tokens.

All outputs are kept with their latest token first, and stacks with their top
first.  A function's name and its opening parenthesis are separate tokens, so
there may be a different number of open arguments and of enclosing stacks. -/
structure Yard where
  /-- The output outside of all arguments. -/
  output : List Token := []
  /-- The functions whose arguments are open, innermost first, each with the
  output of its argument. -/
  calls : List (Fn × List Token) := []
  /-- The stack of the innermost scope. -/
  held : List Held := []
  /-- The stacks of the enclosing scopes, innermost first. -/
  outer : List (List Held) := []
  /-- Whether the token before was the end of a number that multiplies the
  operand directly behind it. -/
  coefficient : Bool := false
  /-- Whether an operand has to come next, so that a `-` here is a sign. -/
  expectsOperand : Bool := true

namespace Yard

/-- The state before the first token. -/
def start : Yard := {}

/-! ## Output and held operators -/

/-- Adds a token to the output of the innermost open argument, or to the outer
output if none is open. -/
def put (yard : Yard) (token : Token) : Yard :=
  match yard.calls with
  | [] => { yard with output := token :: yard.output }
  | (f, arg) :: calls => { yard with calls := (f, token :: arg) :: calls }

/-- Holds an operator back, without sending any other on. -/
def hold (yard : Yard) (op : Operator) : Yard :=
  { yard with held := .operator op :: yard.held }

/-- Splits a stack into the operators on its top that go on, top first, and the
rest below them. -/
def splitHeld (goesOn : Operator → Bool) : List Held → List Operator × List Held
  | .operator op :: held =>
    if goesOn op then
      let (ops, rest) := splitHeld goesOn held
      (op :: ops, rest)
    else ([], .operator op :: held)
  | held => ([], held)

/-- Sends the operators on top of the stack that go on to the output. -/
def release (goesOn : Operator → Bool) (yard : Yard) : Yard :=
  let (ops, held) := splitHeld goesOn yard.held
  ops.foldl (fun yard op => yard.put (.operator op)) { yard with held := held }

/-- Sends all operators of the innermost group to the output. -/
def releaseAll (yard : Yard) : Yard := yard.release fun _ => true

/-- Takes an operator in: operators that bind at least as tightly go on before
it, which groups a row of equal ones to the left. -/
def takeOperator (yard : Yard) (op : Operator) : Yard :=
  (yard.release fun waiting => op.precedence ≤ waiting.precedence).hold op

/-- Puts in the multiplication that a number directly before an operand
stands for. -/
def applyCoefficient (yard : Yard) : Yard :=
  if yard.coefficient then { yard with coefficient := false }.hold .mul else yard

/-! ## Numbers and signs -/

/-- Takes a digit or point in.  The end of a row of them is marked by a space,
and a number that an operand directly follows is its coefficient. -/
def takeNumberPart (yard : Yard) (token : Token) (following : List Token) : Yard :=
  let next := following.head?
  let multiplies := next.any Token.startsFactor
  let yard := { yard with coefficient := yard.coefficient || multiplies }.put token
  if next.any Token.isNumberPart then yard else yard.put .space

/-- Takes a `-` in where an operand has to come.  Before a number it is the sign
of the number, before any other operand the number `-1` times that operand.
Before anything else it is an operator without its left operand. -/
def takeSign (yard : Yard) (following : List Token) : Yard :=
  let next := following.find? fun token => !token.isSpace
  if next.any Token.isNumberPart then yard.put .negative
  else if next.any Token.startsFactor then
    (((yard.put .negative).put (.digit ⟨1, by decide⟩)).put .space).hold .mul
  else yard.takeOperator .sub

/-! ## Groups and arguments -/

/-- Opens a group. -/
def openGroup (yard : Yard) : Yard := { yard with held := .group :: yard.held }

/-- Closes the innermost group, which has to be in the innermost argument. -/
def closeGroup (yard : Yard) : Except ReadError Yard :=
  let yard := yard.releaseAll
  match yard.held with
  | .group :: held => .ok { yard with held := held }
  | _ => .error .malformed

/-- Begins the argument of a function. -/
def beginCall (yard : Yard) (f : Fn) : Yard := { yard with calls := (f, []) :: yard.calls }

/-- Opens a scope with a stack of its own. -/
def openScope (yard : Yard) : Yard := { yard with held := [], outer := yard.held :: yard.outer }

/-- Closes the innermost scope and the innermost argument, and emits the
function with its argument. -/
def closeCall (yard : Yard) : Except ReadError Yard :=
  let yard := yard.releaseAll
  match yard.held, yard.outer, yard.calls with
  | [], held :: outer, (f, arg) :: calls =>
    .ok ({ yard with held, outer, calls }.put (.fn f arg.reverse))
  | _, _, _ => .error .malformed

/-! ## One token after the other -/

/-- Takes a token in that is no white space.  `following` are the tokens behind
it. -/
def take (yard : Yard) (following : List Token) : Token → Except ReadError Yard
  | .digit d => .ok (yard.takeNumberPart (.digit d) following)
  | .point => .ok (yard.takeNumberPart .point following)
  | .negative => .ok (yard.put .negative)
  | .literal n => .ok (yard.put (.literal n))
  | .constant c => .ok (yard.applyCoefficient.put (.constant c))
  | .var => .ok (yard.applyCoefficient.put .var)
  | .operator op =>
    .ok <|
      if op = .sub ∧ yard.expectsOperand then yard.takeSign following
      else yard.takeOperator op
  | .fn f _ => .ok (yard.applyCoefficient.beginCall f)
  | .openCall => .ok yard.openScope
  | .closeCall => yard.closeCall
  | .openGroup => .ok yard.applyCoefficient.openGroup
  | .closeGroup => yard.closeGroup
  | .space => .ok yard

/-- The state after one more token.  White space changes nothing. -/
def step (yard : Yard) (token : Token) (following : List Token) : Except ReadError Yard :=
  if token.isSpace then .ok yard
  else
    match yard.take following token with
    | .ok yard => .ok { yard with expectsOperand := token.awaitsOperand }
    | .error e => .error e

/-- The state after a list of tokens. -/
def run (yard : Yard) : List Token → Except ReadError Yard
  | [] => .ok yard
  | token :: following =>
    match yard.step token following with
    | .ok yard => yard.run following
    | .error e => .error e

/-- The output once no token is left.  Every group and every argument has to be
closed. -/
def result (yard : Yard) : Except ReadError (List Token) :=
  let yard := yard.releaseAll
  match yard.held, yard.outer, yard.calls with
  | [], [], [] => .ok yard.output.reverse
  | _, _, _ => .error .malformed

end Yard

/-- The tokens of a formula, given in infix order, in reverse Polish order. -/
def ofInfix (tokens : List Token) : Except ReadError (List Token) :=
  match Yard.start.run tokens with
  | .ok yard => yard.result
  | .error e => .error e

end Calculator.ReversePolish
