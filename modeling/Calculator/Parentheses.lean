import Calculator.ReadError
import Calculator.Token

/-!
# The parentheses of function arguments

Read from the left, a text shows at once which opening parenthesis begins a
function's argument, but not which closing one ends it.  `Token.markCalls` marks
those: a closing parenthesis belongs to the latest opening one that is still
open.

A closing parenthesis without an opening one is refused here, and so is an
argument that is never closed.  A group that is never closed is not: reordering
refuses it later.
-/

namespace Calculator.Token

/-- What an opening parenthesis begins. -/
inductive Opened where
  | group
  | call
  deriving DecidableEq

/-- `markCalls` behind the given opened parentheses, the latest first. -/
def markCallsFrom : List Opened → List Token → Except ReadError (List Token)
  | opened, [] => if .call ∈ opened then .error .malformed else .ok []
  | opened, openCall :: tokens => (openCall :: ·) <$> markCallsFrom (.call :: opened) tokens
  | opened, openGroup :: tokens => (openGroup :: ·) <$> markCallsFrom (.group :: opened) tokens
  | .call :: opened, closeGroup :: tokens => (closeCall :: ·) <$> markCallsFrom opened tokens
  | .group :: opened, closeGroup :: tokens => (closeGroup :: ·) <$> markCallsFrom opened tokens
  | [], closeGroup :: _ => .error .malformed
  | opened, token :: tokens => (token :: ·) <$> markCallsFrom opened tokens

/-- Turns every `closeGroup` that closes a function's argument into a
`closeCall`. -/
def markCalls (tokens : List Token) : Except ReadError (List Token) :=
  markCallsFrom [] tokens

end Calculator.Token
