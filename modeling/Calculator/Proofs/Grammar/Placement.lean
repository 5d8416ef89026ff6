import Calculator.Proofs.Expr.PostOrder
import Calculator.Proofs.Formula.Stages
import Calculator.Proofs.ReversePolish.Conservation

/-!
# Where operands and operators stand

The tokens of a formula are read from the left with a `Place`: whether an operand has to
come, or one has just come.

* `operandsApart` says that no operand stands directly behind another one, except a
  factor behind its number.  `wellPlaced` says that all other tokens are in their places,
  too: an operator that is no sign stands behind an operand and in front of one, and no
  bracket is closed in front of an operand that is missing.
* A formula is one expression, so what it puts out has the `weight` `1`: each operand adds
  one to the stack, and each operator takes one away (`intakeAll_weight_of_read`).
* Reading never gets ahead of `Place.target`, and every token out of its place puts it
  behind for good.  So if the operands of a formula stand apart, everything else is in its
  place (`wellPlaced_of_read`).
-/

namespace Calculator.Grammar

open ReversePolish (Joined Yard total)

/-! ## Weights -/

/-- What a token adds to the stack of expressions.  Before numbers are joined, it is the space
at the end of a number that counts. -/
def weight : Token → Int
  | .literal _ | .constant _ | .var | .space => 1
  | .operator _ => -1
  | _ => 0

theorem total_weight_parts {parts : List Token} (hparts : ∀ token ∈ parts, token.isNumberPart) :
    total weight parts = 0 := by
  induction parts with
  | nil => rfl
  | cons part parts ih =>
    obtain ⟨hpart, hparts⟩ := List.forall_mem_cons.mp hparts
    have hzero : ReversePolish.totalToken weight part = 0 := by
      cases part <;> first | rfl | cases hpart
    rw [total, hzero, ih hparts]
    rfl

/-- A number weighs nothing without the space at its end. -/
theorem total_weight_number (n : SignedNumber) : total weight n.tokens = 0 := by
  have hparts : total weight n.magnitude.tokens = 0 :=
    total_weight_parts fun _ => PlainNumber.isNumberPart_of_mem_tokens
  rw [SignedNumber.tokens, ReversePolish.total_append, hparts, Token.sign]
  split <;> rfl

/-- Joining keeps the weight. -/
theorem total_weight_joined {apart joined : List Token} (h : Joined apart joined) :
    total weight apart = total weight joined := by
  induction h with
  | nil => rfl
  | number n _ ih =>
    rw [ReversePolish.total_append, total_weight_number]
    simp [total, ReversePolish.totalToken, weight, ih]
  | symbol _ _ ih => rw [total, total, ih]
  | fn f _ _ iharg ih => simp only [total, ReversePolish.totalToken, iharg, ih]

/-- In the reverse Polish order of an expression there is one operand more than operators. -/
theorem total_weight_postOrder (e : Expr) : total weight e.postOrder = 1 := by
  induction e with
  | numeral n => rfl
  | constant c => rfl
  | var => rfl
  | binary op left right ihleft ihright =>
    rw [Expr.postOrder, ReversePolish.total_append, ReversePolish.total_append, ihleft, ihright]
    rfl
  | call f arg ih =>
    rw [Expr.postOrder, total, total, ReversePolish.totalToken, ih]
    rfl

/-- The tokens of a formula bring in one operand more than operators. -/
theorem intakeAll_weight_of_read {text : String} {formula : Formula}
    (h : Formula.read text = .ok formula) {tokens : List Token}
    (htokens : (Lexer.ofText standardNames text).tokens = .ok tokens) :
    Yard.intakeAll weight true tokens = 1 := by
  obtain ⟨tokens', apart, htokens', hapart, hjoined, hroot⟩ := Formula.joined_of_read h
  rw [htokens] at htokens'
  cases htokens'
  rw [← ReversePolish.total_ofInfix weight hapart, total_weight_joined hjoined,
    ← Expr.postOrder_of_ofTokens hroot, total_weight_postOrder]

/-! ## Places -/

/-- What has just been read. -/
inductive Place where
  /-- Nothing, an operator or an opening bracket: an operand has to come. -/
  | before
  /-- The name of a function. -/
  | call
  /-- A part of a number. -/
  | number
  /-- An operand, perhaps with white space behind it. -/
  | behind
  deriving DecidableEq

namespace Place

/-- Whether an operand has to come. -/
def expects : Place → Bool
  | before => true
  | _ => false

/-- The place behind a token. -/
def next (place : Place) : Token → Place
  | .digit _ | .point | .negative => number
  | .literal _ | .constant _ | .var | .closeGroup | .closeCall => behind
  | .fn .. => call
  | .operator _ | .openGroup | .openCall => before
  | .space => if place = number then behind else place

/-- Whether a token may stand in a place as far as operands are concerned: none begins behind
another one, and a function has its argument behind it. -/
def admits : Place → Token → Bool
  | call, .openCall => true
  | call, _ | _, .openCall => false
  | behind, token => !(token.isNumberPart || token.startsFactor)
  | _, _ => true

/-- Whether an operand begins in front of the given tokens, white space aside. -/
def operandAhead (following : List Token) : Bool :=
  (following.find? fun token => !token.isSpace).any fun token =>
    token.isNumberPart || token.startsFactor

/-- Whether a token stands where it needs no operand in front of it, or has one. -/
def fits (place : Place) (token : Token) (following : List Token) : Bool :=
  match place, token with
  | before, .operator op => op = .sub && operandAhead following
  | before, .closeGroup | before, .closeCall => false
  | _, _ => true

/-- The weight that all tokens up to a place should have together.  A number counts from its end
on, and only if it multiplies nothing. -/
def target (following : List Token) : Place → Int
  | before | call => 0
  | number =>
    if following.head?.any fun token => token.isNumberPart || token.startsFactor then 0 else 1
  | behind => 1

end Place

/-- Whether no operand stands directly behind another one, white space aside, except a factor
directly behind a number. -/
def operandsApart : Place → List Token → Bool
  | _, [] => true
  | place, token :: following =>
    place.admits token && operandsApart (place.next token) following

/-- Whether all operands stand apart and every other token stands in its place. -/
def wellPlaced : Place → List Token → Bool
  | place, [] => place = .number || place = .behind
  | place, token :: following =>
    place.admits token && place.fits token following && wellPlaced (place.next token) following

namespace Place

/-- The end of a number counts as an operand, unless the number multiplies one. -/
theorem numberIntake_weight {token : Token} (htoken : token.isNumberPart)
    (following : List Token) :
    Yard.numberIntake weight token following = target following number := by
  have hzero : weight token = 0 := by
    cases token <;> first | rfl | cases htoken
  rw [Yard.numberIntake, hzero, target]
  cases following with
  | nil => rfl
  | cons next following => cases next <;> rfl

/-- A sign is no operator, if an operand begins behind it. -/
theorem signIntake_weight (following : List Token) :
    Yard.signIntake weight following = if operandAhead following then 0 else -1 := by
  unfold Yard.signIntake operandAhead
  dsimp only
  cases following.find? fun token => !token.isSpace with
  | none => rfl
  | some next => cases next <;> rfl

/-- The state of the yard agrees with the place. -/
theorem expects_next (place : Place) (token : Token) :
    (place.next token).expects =
      if token.isSpace then place.expects else token.awaitsOperand := by
  cases token with
  | space => cases place <;> rfl
  | _ => rfl

/-- A token in its place brings in what it has to, and any other one brings in less. -/
theorem intake_weight {place : Place} {token : Token} (hread : Yard.isRead token)
    (hadmits : place.admits token) (following : List Token) :
    Yard.intake weight place.expects following token + place.target (token :: following) ≤
        (place.next token).target following - (!place.fits token following).toNat := by
  cases token with
  | negative => cases hread
  | literal n => cases hread
  | digit d =>
    rw [Yard.intake, numberIntake_weight rfl]
    cases place <;> first
      | exact absurd hadmits Bool.false_ne_true
      | simp [target, next, fits, Token.isNumberPart]
  | point =>
    rw [Yard.intake, numberIntake_weight rfl]
    cases place <;> first
      | exact absurd hadmits Bool.false_ne_true
      | simp [target, next, fits, Token.isNumberPart]
  | operator op =>
    rw [Yard.intake, signIntake_weight]
    cases place with
    | before =>
      by_cases hop : op = .sub
      · cases hahead : operandAhead following <;>
          simp [hop, hahead, expects, target, next, fits]
      · simp [hop, expects, target, next, fits, weight]
    | call => cases hadmits
    | number => simp [expects, target, next, fits, weight, Token.isNumberPart, Token.startsFactor]
    | behind => simp [expects, target, next, fits, weight]
  | _ =>
    cases place <;> first
      | exact absurd hadmits Bool.false_ne_true
      | simp [Yard.intake, target, next, fits, weight, Token.isNumberPart, Token.startsFactor]

end Place

/-- The tokens from a place on bring in no more than is missing there, and less if one of them
is out of its place. -/
theorem intakeAll_weight {tokens : List Token} (hread : ∀ token ∈ tokens, Yard.isRead token)
    {place : Place} (hapart : operandsApart place tokens) :
    Yard.intakeAll weight place.expects tokens + place.target tokens ≤
      1 - (!wellPlaced place tokens).toNat := by
  induction tokens generalizing place with
  | nil => cases place <;> simp [Yard.intakeAll, wellPlaced, Place.target]
  | cons token following ih =>
    obtain ⟨hadmits, hfollowing⟩ :
        place.admits token ∧ operandsApart (place.next token) following := by
      simpa [operandsApart] using hapart
    obtain ⟨hread, hreadFollowing⟩ := List.forall_mem_cons.mp hread
    have htoken := Place.intake_weight hread hadmits following
    have hrest := ih hreadFollowing hfollowing
    rw [Yard.intakeAll, ← Place.expects_next, wellPlaced, hadmits]
    cases hfits : place.fits token following <;>
      cases hplaced : wellPlaced (place.next token) following <;>
      simp [hfits, hplaced] at htoken hrest ⊢ <;> omega

/-- If the operands of a formula stand apart, everything else is in its place. -/
theorem wellPlaced_of_read {text : String} {formula : Formula}
    (h : Formula.read text = .ok formula) {tokens : List Token}
    (htokens : (Lexer.ofText standardNames text).tokens = .ok tokens)
    (hapart : operandsApart .before tokens) : wellPlaced .before tokens := by
  have hweight := intakeAll_weight_of_read h htokens
  have hle := intakeAll_weight (Lexer.isRead_of_mem htokens) hapart
  cases hplaced : wellPlaced .before tokens with
  | true => rfl
  | false =>
    rw [Place.expects, hweight, hplaced] at hle
    simp [Place.target] at hle

end Calculator.Grammar
