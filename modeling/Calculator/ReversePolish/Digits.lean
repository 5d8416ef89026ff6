import Calculator.ReadError
import Calculator.Token

/-!
# Digits joined to literals

In reverse Polish order a number is still a row of digits and points, perhaps
with a sign in front.  Joining puts one literal in the place of each row and
drops the spaces that kept the rows apart, in the formula and in the argument of
every function.

A list without any space counts as joined and stays as it is, even if it has
digits in it.  The same holds for each argument by itself.
-/

namespace Calculator.ReversePolish

mutual

/-- Whether no space is left in a token's argument and the token is none. -/
def isSpaceFreeToken : Token → Bool
  | .space => false
  | .fn _ arg => isSpaceFree arg
  | _ => true

/-- Whether no space is left in a list of tokens, at any depth. -/
def isSpaceFree : List Token → Bool
  | [] => true
  | token :: tokens => isSpaceFreeToken token && isSpaceFree tokens

end

/-- The literal with the given text. -/
def literal (text : String) : Except ReadError Token :=
  match Numeral.ofText? text with
  | some n => .ok (.literal n)
  | none => .error (.badNumeral text)

mutual

/-- Joins the digits in the argument of a token. -/
def joinToken : Token → Except ReadError Token
  | .fn f arg =>
    if isSpaceFree arg then .ok (.fn f arg) else (.fn f ·) <$> joinFrom "" arg
  | token => .ok token

/-- Joins the digits of a list of tokens behind the number text read so far, which
is empty except within a number. -/
def joinFrom (text : String) : List Token → Except ReadError (List Token)
  | [] => .ok []
  | token :: tokens =>
    if token.isNumberPart || token.isNegative then
      let text := text ++ token.spelling
      if tokens.head?.any Token.isNumberPart then joinFrom text tokens
      else do
        let number ← literal text
        let rest ← joinFrom "" tokens
        .ok (number :: rest)
    else if token.isSpace then joinFrom text tokens
    else do
      let joined ← joinToken token
      let rest ← joinFrom text tokens
      .ok (joined :: rest)

end

/-- A list of tokens in reverse Polish order with the digits of its numbers
joined. -/
def joinDigits (tokens : List Token) : Except ReadError (List Token) :=
  if isSpaceFree tokens then .ok tokens else joinFrom "" tokens

end Calculator.ReversePolish
