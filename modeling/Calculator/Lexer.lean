import Calculator.NameTable.Basic
import Calculator.Parentheses
import Calculator.Text.Blank
import Calculator.Token

/-!
# Reading tokens from text

The lexer takes a text apart from the left, one token at a time.

* A white space character, a digit, a point, a parenthesis, an operator symbol,
  `x` and `e` are one token each; so are the two characters `pi`.
* Any other ASCII letter begins a function name: the longest name of the table
  the text begins with, which has to be followed directly by its opening
  parenthesis.  Name and parenthesis are taken from the text together and make
  two tokens.

The lexer gives `closeGroup` for every closing parenthesis.  Only the text as a
whole shows which of them close an argument; `Token.markCalls` marks them.

A lexer that has met an error is at its end.
-/

namespace Calculator

namespace Token

/-- The token that a character is by itself, if it is one. -/
def ofChar? (c : Char) : Option Token :=
  if Text.isBlank c then some space
  else if c.isDigit then some (digit (Fin.ofNat 10 (c.toNat - '0'.toNat)))
  else
    match c with
    | '.' => some point
    | '(' => some openGroup
    | ')' => some closeGroup
    | 'x' => some var
    | 'e' => some (constant .e)
    | c => (Operator.ofChar? c).map operator

/-- No single character is a function. -/
theorem isFn_of_ofChar? {c : Char} {token : Token} (h : ofChar? c = some token) :
    token.isFn = false := by
  unfold ofChar? at h
  split at h
  · cases h
    rfl
  · split at h
    · cases h
      rfl
    · split at h
      case h_6 =>
        obtain ⟨op, -, rfl⟩ := Option.map_eq_some_iff.mp h
        rfl
      all_goals
        cases h
        rfl

end Token

/-- A text being read: the table of function names, what is left of the text,
and whether the parenthesis of a function name just read is still to be given
out as a token. -/
structure Lexer (M : Type → Type) where
  names : M Fn
  rest : List Char
  owesCall : Bool

namespace Lexer

variable {M : Type → Type} [NameTable M]

/-- The lexer at the beginning of a text. -/
def ofText (names : M Fn) (text : String) : Lexer M := ⟨names, text.toList, false⟩

/-- The function named at the beginning of a text, with the text behind its
opening parenthesis. -/
def name? (names : M Fn) (text : List Char) : Except ReadError (Fn × List Char) :=
  match NameTable.longest? names text with
  | none | some (0, _) =>
    .error (.unknownName (String.ofList (text.takeWhile Char.isAlpha)))
  | some (length, f) =>
    match Text.splitAt? length text with
    | some (_, '(' :: rest) => .ok (f, rest)
    | _ => .error .malformed

/-- The constant `pi` or the function at the head of a text that begins with a
letter.  The text behind a function begins after its parenthesis. -/
def word? (names : M Fn) : List Char → Except ReadError (Token × List Char)
  | 'p' :: 'i' :: rest => .ok (.constant .pi, rest)
  | text =>
    match name? names text with
    | .ok (f, rest) => .ok (.fn f [], rest)
    | .error e => .error e

/-- The first token of the text `c :: cs`, with the text behind it. -/
def first? (names : M Fn) (c : Char) (cs : List Char) : Except ReadError (Token × List Char) :=
  match Token.ofChar? c with
  | some token => .ok (token, cs)
  | none => if c.isAlpha then word? names (c :: cs) else .error (.strayCharacter c)

/-- The next item and the lexer after it: a token, or the error that ends the
text. -/
def next? (lexer : Lexer M) : Option (Except ReadError Token × Lexer M) :=
  if lexer.owesCall then some (.ok .openCall, { lexer with owesCall := false })
  else
    match lexer.rest with
    | [] => none
    | c :: cs =>
      match first? lexer.names c cs with
      | .ok (token, rest) => some (.ok token, ⟨lexer.names, rest, token.isFn⟩)
      | .error e => some (.error e, ⟨lexer.names, [], false⟩)

/-! ## The whole text -/

/-- What is left to be given out: characters, and an owed parenthesis. -/
def size (lexer : Lexer M) : Nat := lexer.rest.length + lexer.owesCall.toNat

/-- A function is named by the longest name in front, with its parenthesis behind it. -/
theorem name?_eq_ok_iff {names : M Fn} {text rest : List Char} {f : Fn} :
    name? names text = .ok (f, rest) ↔
      ∃ name : List Char, name ≠ [] ∧ text = name ++ '(' :: rest ∧
        NameTable.longest? names text = some (Text.byteLength name, f) := by
  constructor
  · intro h
    unfold name? at h
    split at h
    · cases h
    · cases h
    · rename_i length g hlength hlongest
      split at h
      · rename_i name _ hsplit
        cases h
        obtain ⟨rfl, rfl⟩ := Text.splitAt?_eq_some_iff.mp hsplit
        refine ⟨name, ?_, rfl, hlongest⟩
        rintro rfl
        exact hlength rfl
      · cases h
  · intro h
    obtain ⟨name, hne, rfl, hlongest⟩ := h
    have hcut : Text.splitAt? (Text.byteLength name) (name ++ '(' :: rest) =
        some (name, '(' :: rest) :=
      Text.splitAt?_eq_some_iff.mpr ⟨rfl, rfl⟩
    have hlength : Text.byteLength name ≠ 0 := mt Text.byteLength_eq_zero_iff.mp hne
    unfold name?
    rw [hlongest]
    split
    · contradiction
    · rename_i hzero
      exact absurd (congrArg Prod.fst (Option.some.inj hzero)) hlength
    · rename_i hfound
      cases hfound
      rw [hcut]
      rfl

/-- A function name and its parenthesis are at least two characters. -/
theorem length_lt_of_name? {names : M Fn} {text rest : List Char} {f : Fn}
    (h : name? names text = .ok (f, rest)) : rest.length + 1 < text.length := by
  obtain ⟨name, hne, rfl, -⟩ := name?_eq_ok_iff.mp h
  have := List.length_pos_iff.mpr hne
  simp only [List.length_append, List.length_cons]
  omega

/-- A word takes at least one character, and a function at least two. -/
theorem length_lt_of_word? {names : M Fn} {text rest : List Char} {token : Token}
    (h : word? names text = .ok (token, rest)) :
    rest.length + token.isFn.toNat < text.length := by
  unfold word? at h
  split at h
  · cases h
    simp +arith [Token.isFn]
  · split at h
    · rename_i hname
      cases h
      simpa [Token.isFn] using length_lt_of_name? hname
    · cases h

/-- The first token takes at least one character, and a function at least two. -/
theorem length_lt_of_first? {names : M Fn} {c : Char} {cs rest : List Char} {token : Token}
    (h : first? names c cs = .ok (token, rest)) :
    rest.length + token.isFn.toNat < (c :: cs).length := by
  unfold first? at h
  split at h
  · rename_i single hsingle
    cases h
    simp [Token.isFn_of_ofChar? hsingle]
  · split at h
    · exact length_lt_of_word? h
    · cases h

/-- Every item leaves less to be given out. -/
theorem size_lt_of_next? {lexer after : Lexer M} {item : Except ReadError Token}
    (h : lexer.next? = some (item, after)) : after.size < lexer.size := by
  unfold next? at h
  split at h
  · rename_i howes
    cases h
    simp [size, howes]
  · split at h
    · cases h
    · rename_i c cs hrest
      split at h
      · rename_i token rest hfirst
        cases h
        have := length_lt_of_first? hfirst
        simp only [size, hrest]
        omega
      · cases h
        simp +arith [size, hrest]

/-- All items still to come: tokens, and at the end an error if there is one. -/
def items (lexer : Lexer M) : List (Except ReadError Token) :=
  match h : lexer.next? with
  | none => []
  | some (item, after) =>
    have := size_lt_of_next? h
    item :: after.items
termination_by lexer.size

/-- The tokens of the rest of the text, with the parentheses of function
arguments marked. -/
def tokens (lexer : Lexer M) : Except ReadError (List Token) := do
  let tokens ← lexer.items.mapM id
  Token.markCalls tokens

/-- The least and the greatest number of items still to come, as far as can be
told without reading on. -/
def bounds (lexer : Lexer M) : Nat × Nat :=
  (lexer.owesCall.toNat, Text.byteLength lexer.rest + lexer.owesCall.toNat)

end Lexer

end Calculator
