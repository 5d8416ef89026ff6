import Calculator.Binary64.Thousandths
import Calculator.Expr.Diagram
import Calculator.Expr.OfTokens
import Calculator.Lexer
import Calculator.NameTable.Trie
import Calculator.ReversePolish.Digits
import Calculator.ReversePolish.Yard

/-!
# Formulas

A formula is a text that has been read as an expression.  Reading either gives
the whole expression or the first reason against it; a formula that exists can be
evaluated anywhere.

* `Formula.read` reads with the standard function names and `Formula.readWith`
  with a table of the caller's.
* `Formula.roundedAt` evaluates and rounds to three places; `Formula.eval` does not
  round.
-/

namespace Calculator

/-- The standard table of function names. -/
def standardNames : NameTable.Trie Fn := NameTable.ofEntries Fn.table

/-- A text with the expression it stands for. -/
structure Formula where
  /-- The text as it was given. -/
  text : String
  /-- The tokens in reverse Polish order, with digits joined. -/
  tokens : List Token
  root : Expr

namespace Formula

variable {M : Type → Type} [NameTable M]

/-- Reads a formula with a table of function names. -/
def readWith (names : M Fn) (text : String) : Except ReadError Formula := do
  let tokens ← (Lexer.ofText names text).tokens
  let tokens ← ReversePolish.ofInfix tokens
  let tokens ← ReversePolish.joinDigits tokens
  let root ← Expr.ofTokens tokens
  .ok ⟨text, tokens, root⟩

/-- Reads a formula with the standard function names. -/
def read (text : String) : Except ReadError Formula := readWith standardNames text

/-- The value of a formula where the variable has the value `x`. -/
def eval (formula : Formula) (x : Float) : Float := formula.root.eval x

/-- The value of a formula at `x`, rounded to three decimal places. -/
def roundedAt [Binary64.Decimals] (formula : Formula) (x : Float) : Float :=
  Binary64.roundThousandths (formula.eval x)

/-- The value of a formula where the variable is zero, rounded to three decimal
places. -/
def rounded [Binary64.Decimals] (formula : Formula) : Float :=
  formula.roundedAt (Float.ofBits 0)

/-! ## Printing -/

mutual

/-- The words of a token: a function stands behind the words of its argument. -/
def tokenWords : Token → List String
  | .fn f arg => words arg ++ [f.name]
  | token => [token.spelling]

/-- The words of a list of tokens. -/
def words : List Token → List String
  | [] => []
  | token :: tokens => tokenWords token ++ words tokens

end

/-- The formula in reverse Polish order, its words set apart by single
spaces. -/
def reversePolish (formula : Formula) : String :=
  String.intercalate " " (words formula.tokens)

/-- The diagram of the formula's expression. -/
def diagram (formula : Formula) : String := formula.root.diagram

/-- Two formulas are equal if their texts, tokens and expressions are. -/
instance : BEq Formula where
  beq a b := a.text == b.text && a.tokens == b.tokens && a.root == b.root

/-- Whether two readings end alike: with equal formulas, or with the same
error. -/
def sameOutcome : Except ReadError Formula → Except ReadError Formula → Bool
  | .ok a, .ok b => a == b
  | .error d, .error e => d == e
  | _, _ => false

end Formula

end Calculator
