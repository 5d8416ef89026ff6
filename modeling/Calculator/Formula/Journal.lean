import Calculator.Formula.Basic
import Calculator.Text.Quoted

/-!
# The journal of a reading

What is recorded while a formula is read: an entry for every step that is done,
and in the end one for the error if there is one.
-/

namespace Calculator

/-- A record of one step of reading a formula. -/
inductive JournalEntry where
  /-- The text was taken apart into this many tokens. -/
  | scanned (text : String) (count : Nat)
  /-- The tokens are in reverse Polish order. -/
  | reordered (tokens : List Token)
  /-- The digits are joined, and this many tokens are left. -/
  | joined (count : Nat)
  /-- The text was refused. -/
  | failed (text : String) (error : ReadError)

/-- How much attention an entry asks for. -/
inductive JournalLevel where
  | trace
  | debug

namespace JournalEntry

/-- Steps are traced; an error is for whoever looks for one. -/
def level : JournalEntry → JournalLevel
  | failed .. => .debug
  | _ => .trace

/-- The wording of an entry. -/
def message : JournalEntry → String
  | scanned text count =>
    "tokenized " ++ Text.quote text ++ " into " ++ toString count ++ " tokens"
  | reordered tokens => "postfix " ++ Text.quote (String.join (tokens.map Token.spelling))
  | joined count => "condensed into " ++ toString count ++ " tokens"
  | failed text error => "failed to parse " ++ Text.quote text ++ ": " ++ error.message

end JournalEntry

namespace Formula

variable {M : Type → Type} [NameTable M]

/-- The entries made while `readWith` reads a text. -/
def journal (names : M Fn) (text : String) : List JournalEntry :=
  match (Lexer.ofText names text).tokens with
  | .error e => [.failed text e]
  | .ok scanned =>
    .scanned text scanned.length ::
      match ReversePolish.ofInfix scanned with
      | .error e => [.failed text e]
      | .ok reordered =>
        .reordered reordered ::
          match ReversePolish.joinDigits reordered with
          | .error e => [.failed text e]
          | .ok joined =>
            .joined joined.length ::
              match Expr.ofTokens joined with
              | .error e => [.failed text e]
              | .ok _ => []

end Formula

end Calculator
