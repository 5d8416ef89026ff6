/-!
# Why a text is not a formula

Every stage between text and expression reports with the same four causes.
`ReadError.message` words them.
-/

namespace Calculator

/-- The reason why a text is refused. -/
inductive ReadError where
  /-- A character that starts no token. -/
  | strayCharacter (c : Char)
  /-- Letters that are no function's name. -/
  | unknownName (name : String)
  /-- Tokens that do not form an expression: a parenthesis without partner, a
  function without argument, a missing operator or operand. -/
  | malformed
  /-- Digits and points that are no number. -/
  | badNumeral (text : String)
  deriving DecidableEq

namespace ReadError

/-- The wording of a reason.  The offending text is quoted as it stands. -/
def message : ReadError → String
  | strayCharacter c => "unknown character '" ++ String.singleton c ++ "'"
  | unknownName name => "unknown function \"" ++ name ++ "\""
  | malformed => "invalid expression format"
  | badNumeral text => "invalid numeric literal \"" ++ text ++ "\""

end ReadError

end Calculator
