import Calculator.Text.Unshown

/-!
# Texts in quotes

The form in which the journal quotes a text: in double quotes, with a backslash
in front of quotes and backslashes, short names for the usual control
characters, and the code point in place of every other character that is not
shown by itself.
-/

namespace Calculator.Text

/-- A character by its code point: lower-case hexadecimal digits in braces. -/
def escapeCode (c : Char) : List Char :=
  ['\\', 'u', '\x7b'] ++ Nat.toDigits 16 c.toNat ++ ['\x7d']

/-- The form of a character inside quotes. -/
def escape (c : Char) : List Char :=
  match c with
  | '"' => ['\\', '"']
  | '\\' => ['\\', '\\']
  | '\n' => ['\\', 'n']
  | '\r' => ['\\', 'r']
  | '\t' => ['\\', 't']
  | '\x00' => ['\\', '0']
  | c => if isUnshown c then escapeCode c else [c]

/-- A text in quotes. -/
def quote (text : String) : String :=
  String.ofList ('"' :: text.toList.flatMap escape ++ ['"'])

end Calculator.Text
