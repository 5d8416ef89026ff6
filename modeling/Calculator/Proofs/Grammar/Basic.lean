import Calculator.Proofs.Lexer.Spelling

/-!
# The grammar of formulas

The sentences of the grammar, each as the tree of its derivation:

    V ::= x | c | (E) | f(E)
    T ::= n | V | nV | -T
    E ::= T | T o E

Here `n` is a `PlainNumber`, `c` a constant, `f` a function and `o` an operator.  A
row `T o … o T` of terms is what `E ::= T | E o E` derives, too; how the terms of a
row belong together is not a matter of the grammar.

White space may stand at every place but inside a number or a name, between a name
and its parenthesis, and between a number and the factor it multiplies.  It is kept
in the derivation, so that `Sentence.text` gives every text that the grammar has.

`Sentence.tokens_text` says which tokens the lexer gives for such a text.
-/

namespace Calculator.Grammar

/-- A row of white space. -/
structure Blanks where
  chars : List Char
  isBlank : ∀ c ∈ chars, Text.isBlank c

mutual

/-- An operand that a number directly in front of it multiplies. -/
inductive Factor where
  | var
  | constant (c : Constant)
  | group (before : Blanks) (row : Row) (after : Blanks)
  | call (f : Fn) (before : Blanks) (row : Row) (after : Blanks)

/-- What stands between two operators. -/
inductive Term where
  | number (n : PlainNumber)
  | factor (a : Factor)
  | scaled (n : PlainNumber) (a : Factor)
  | negated (blanks : Blanks) (t : Term)

/-- Terms with operators between them. -/
inductive Row where
  | last (t : Term)
  | next (t : Term) (before : Blanks) (op : Operator) (after : Blanks) (row : Row)

end

/-- A row with the white space around it. -/
structure Sentence where
  before : Blanks
  row : Row
  after : Blanks

/-! ## Texts -/

mutual

/-- The characters of a factor. -/
def Factor.chars : Factor → List Char
  | .var => ['x']
  | .constant c => c.name.toList
  | .group before row after => '(' :: (before.chars ++ row.chars ++ after.chars ++ [')'])
  | .call f before row after =>
    f.name.toList ++ '(' :: (before.chars ++ row.chars ++ after.chars ++ [')'])

/-- The characters of a term. -/
def Term.chars : Term → List Char
  | .number n => n.chars
  | .factor a => a.chars
  | .scaled n a => n.chars ++ a.chars
  | .negated blanks t => '-' :: (blanks.chars ++ t.chars)

/-- The characters of a row. -/
def Row.chars : Row → List Char
  | .last t => t.chars
  | .next t before op after row =>
    t.chars ++ before.chars ++ op.symbol :: (after.chars ++ row.chars)

end

/-- The characters of a sentence. -/
def Sentence.chars (s : Sentence) : List Char := s.before.chars ++ s.row.chars ++ s.after.chars

/-- The text of a sentence. -/
def Sentence.text (s : Sentence) : String := String.ofList s.chars

/-! ## Tokens -/

/-- White space is one token a character. -/
def Blanks.tokens (blanks : Blanks) : List Token := blanks.chars.map fun _ => .space

mutual

/-- The tokens of a factor. -/
def Factor.tokens : Factor → List Token
  | .var => [.var]
  | .constant c => [.constant c]
  | .group before row after =>
    .openGroup :: (before.tokens ++ row.tokens ++ after.tokens) ++ [.closeGroup]
  | .call f before row after =>
    .fn f [] :: .openCall :: (before.tokens ++ row.tokens ++ after.tokens) ++ [.closeCall]

/-- The tokens of a term. -/
def Term.tokens : Term → List Token
  | .number n => n.tokens
  | .factor a => a.tokens
  | .scaled n a => n.tokens ++ a.tokens
  | .negated blanks t => .operator .sub :: (blanks.tokens ++ t.tokens)

/-- The tokens of a row. -/
def Row.tokens : Row → List Token
  | .last t => t.tokens
  | .next t before op after row =>
    t.tokens ++ before.tokens ++ .operator op :: (after.tokens ++ row.tokens)

end

/-- The tokens of a sentence. -/
def Sentence.tokens (s : Sentence) : List Token :=
  s.before.tokens ++ s.row.tokens ++ s.after.tokens

/-! ## Signs -/

/-- Whether a term begins with a sign. -/
def Term.isNegated : Term → Bool
  | .negated .. => true
  | _ => false

mutual

/-- Whether no sign in a factor stands directly behind another one. -/
def Factor.signsApart : Factor → Bool
  | .var | .constant _ => true
  | .group _ row _ | .call _ _ row _ => row.signsApart

/-- Whether no sign in a term stands directly behind another one. -/
def Term.signsApart : Term → Bool
  | .number _ => true
  | .factor a | .scaled _ a => a.signsApart
  | .negated _ t => !t.isNegated && t.signsApart

/-- Whether no sign in a row stands directly behind another one. -/
def Row.signsApart : Row → Bool
  | .last t => t.signsApart
  | .next t _ _ _ row => t.signsApart && row.signsApart

end

/-- Whether no sign in a sentence stands directly behind another one. -/
def Sentence.signsApart (s : Sentence) : Bool := s.row.signsApart

/-! ## The tokens of a text -/

theorem Blanks.eq_space_of_mem {blanks : Blanks} {token : Token} (h : token ∈ blanks.tokens) :
    token = .space := by
  obtain ⟨c, -, rfl⟩ := List.mem_map.mp h
  rfl

theorem Blanks.spells (blanks : Blanks) :
    Spells blanks.chars (blanks.tokens.map Token.unmark) := by
  obtain ⟨chars, isBlank⟩ := blanks
  induction chars with
  | nil => exact .nil
  | cons c chars ih =>
    exact .single (Token.ofChar?_of_isBlank (isBlank c List.mem_cons_self))
      (ih fun d hd => isBlank d (List.mem_cons_of_mem _ hd))

mutual

theorem Factor.spells : (a : Factor) → Spells a.chars (a.tokens.map Token.unmark)
  | .var => .single rfl .nil
  | .constant .pi => .pi .nil
  | .constant .e => .single rfl .nil
  | .group before row after => by
    have hclose : Spells [')'] [.closeGroup] := .single rfl .nil
    have hrow := ((before.spells.append row.spells).append after.spells).append hclose
    simp only [Factor.chars, Factor.tokens, List.cons_append, List.map_cons, List.map_append]
    exact .single rfl hrow
  | .call f before row after => by
    have hclose : Spells [')'] [.closeGroup] := .single rfl .nil
    have hrow := ((before.spells.append row.spells).append after.spells).append hclose
    simp only [Factor.chars, Factor.tokens, List.cons_append, List.map_cons, List.map_append]
    exact .call f hrow

theorem Term.spells : (t : Term) → Spells t.chars (t.tokens.map Token.unmark)
  | .number n => n.spells
  | .factor a => a.spells
  | .scaled n a => by
    simp only [Term.chars, Term.tokens, List.map_append]
    exact n.spells.append a.spells
  | .negated blanks t => by
    simp only [Term.chars, Term.tokens, List.map_cons, List.map_append]
    exact .single (Token.ofChar?_symbol .sub) (blanks.spells.append t.spells)

theorem Row.spells : (row : Row) → Spells row.chars (row.tokens.map Token.unmark)
  | .last t => t.spells
  | .next t before op after row => by
    have hrest := Spells.single (Token.ofChar?_symbol op) (after.spells.append row.spells)
    simp only [Row.chars, Row.tokens, List.map_cons, List.map_append]
    exact (t.spells.append before.spells).append hrest

end

theorem Blanks.balanced (blanks : Blanks) : Token.Balanced blanks.tokens := by
  unfold Blanks.tokens
  induction blanks.chars with
  | nil => exact Token.balanced_nil
  | cons c chars ih => exact ih.cons fun _ => rfl

mutual

theorem Factor.balanced : (a : Factor) → Token.Balanced a.tokens
  | .var => Token.balanced_nil.cons fun _ => rfl
  | .constant _ => Token.balanced_nil.cons fun _ => rfl
  | .group before row after =>
    ((before.balanced.append row.balanced).append after.balanced).group
  | .call f before row after =>
    ((before.balanced.append row.balanced).append after.balanced).call f []

theorem Term.balanced : (t : Term) → Token.Balanced t.tokens
  | .number n => n.balanced
  | .factor a => a.balanced
  | .scaled n a => n.balanced.append a.balanced
  | .negated blanks t => (blanks.balanced.append t.balanced).cons fun _ => rfl

theorem Row.balanced : (row : Row) → Token.Balanced row.tokens
  | .last t => t.balanced
  | .next t before _ after row =>
    (t.balanced.append before.balanced).append
      ((after.balanced.append row.balanced).cons fun _ => rfl)

end

/-- The lexer gives the tokens of a sentence for its text. -/
theorem Sentence.tokens_text (s : Sentence) :
    (Lexer.ofText standardNames s.text).tokens = .ok s.tokens := by
  have hspells := (s.before.spells.append s.row.spells).append s.after.spells
  have hbalanced := (s.before.balanced.append s.row.balanced).append s.after.balanced
  refine Lexer.tokens_eq_ok_iff.mpr ⟨?_, [], hbalanced [], List.not_mem_nil⟩
  rw [text, String.toList_ofList, chars, tokens, List.map_append, List.map_append]
  exact hspells

end Calculator.Grammar
