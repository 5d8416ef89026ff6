import Calculator.Expr.Basic
import Calculator.ReadError
import Calculator.Token

/-!
# Expressions from reverse Polish order

In reverse Polish order an operator stands behind its two operands, and a
function token carries its argument.  Reading such a list from the left keeps a
stack of complete expressions: an operand is put on it, an operator takes two
off and puts one on.  The list is an expression if in the end one is there.

The digits of numbers have to be joined to literals before.  A digit, a space or
a parenthesis has no meaning by itself here.
-/

namespace Calculator.Expr

mutual

/-- The stack of expressions after one more token; the top is the first. -/
def pushToken (stack : List Expr) : Token → Except ReadError (List Expr)
  | .literal n => .ok (numeral n :: stack)
  | .constant c => .ok (constant c :: stack)
  | .var => .ok (var :: stack)
  | .operator op =>
    match stack with
    | right :: left :: stack => .ok (binary op left right :: stack)
    | _ => .error .malformed
  | .fn f arg =>
    match pushTokens [] arg with
    | .ok [arg] => .ok (call f arg :: stack)
    | _ => .error .malformed
  | _ => .error .malformed

/-- The stack of expressions after a list of tokens. -/
def pushTokens (stack : List Expr) : List Token → Except ReadError (List Expr)
  | [] => .ok stack
  | token :: tokens =>
    match pushToken stack token with
    | .ok stack => pushTokens stack tokens
    | .error e => .error e

end

/-- The expression that a list in reverse Polish order stands for. -/
def ofTokens (tokens : List Token) : Except ReadError Expr :=
  match pushTokens [] tokens with
  | .ok [root] => .ok root
  | _ => .error .malformed

end Calculator.Expr
