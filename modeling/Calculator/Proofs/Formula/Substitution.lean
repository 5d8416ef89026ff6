import Calculator.Proofs.Expr.PostOrder
import Calculator.Proofs.Formula.Stages
import Calculator.Proofs.ReversePolish.Substitution

/-!
# A number in the place of the variable

`substituteText` puts a number in parentheses in the place of every `x` of a text, and
`Expr.substitute` a numeral in the place of the variable of an expression.  Every stage
takes the one to the other.

* `Lexer.tokens_substituteText`: the tokens have an operand in the place of the variable.
* `SignedNumber.isOperand`: the operand gives the digits of the number.
* `Joined.fill`: joining gives the numeral in the place of the variable.
* `Expr.ofTokens_fill`: the expression has the numeral there.
-/

namespace Calculator

open ReversePolish

/-- A text with a number in parentheses in the place of every `x`. -/
def substituteText (n : SignedNumber) (text : String) : String :=
  String.ofList (text.toList.flatMap fun c => if c = 'x' then '(' :: n.chars ++ [')'] else [c])

namespace Expr

/-- An expression with a numeral in the place of the variable. -/
def substitute (n : Numeral) : Expr → Expr
  | numeral m => numeral m
  | constant c => constant c
  | var => numeral n
  | binary op left right => binary op (left.substitute n) (right.substitute n)
  | call f arg => call f (arg.substitute n)

/-- The variable is as good as its value. -/
theorem eval_substitute (n : Numeral) (e : Expr) (y : Float) :
    (e.substitute n).eval y = e.eval n.value := by
  induction e with
  | numeral m => rfl
  | constant c => rfl
  | var => rfl
  | binary op left right ihleft ihright => rw [substitute, eval, eval, ihleft, ihright]
  | call f arg ih => rw [substitute, eval, eval, ih]

end Expr

/-! ## Tokens -/

namespace SignedNumber

/-- The tokens of a number as they are read, where a sign is an operator. -/
def infixTokens (n : SignedNumber) : List Token :=
  (if n.negative then [.operator .sub] else []) ++ n.magnitude.tokens

/-- A number in parentheses. -/
def operand (n : SignedNumber) : List Token := .openGroup :: n.infixTokens ++ [.closeGroup]

end SignedNumber

/-- Only an `x` is the variable. -/
theorem Token.ofChar?_eq_var_iff {c : Char} : Token.ofChar? c = some .var ↔ c = 'x' := by
  constructor
  · intro h
    unfold Token.ofChar? at h
    split at h
    · cases h
    · split at h
      · cases h
      · split at h
        case h_4 => rfl
        case h_6 =>
          obtain ⟨op, -, hop⟩ := Option.map_eq_some_iff.mp h
          cases hop
        all_goals cases h
  · intro h
    rw [h]
    rfl

namespace SignedNumber

theorem spells_infixTokens (n : SignedNumber) :
    Spells n.chars (n.infixTokens.map Token.unmark) := by
  obtain ⟨negative, magnitude⟩ := n
  cases negative with
  | false => exact magnitude.spells
  | true => exact .single rfl magnitude.spells

theorem balanced_infixTokens (n : SignedNumber) : Token.Balanced n.infixTokens := by
  obtain ⟨negative, magnitude⟩ := n
  cases negative with
  | false => exact magnitude.balanced
  | true => exact magnitude.balanced.cons fun _ => rfl

/-- A number in parentheses is spelled as the operand that stands for it. -/
theorem spells_operand (n : SignedNumber) :
    Spells ('(' :: n.chars ++ [')']) (n.operand.map Token.unmark) := by
  have hclose : Spells [')'] [.closeGroup] := .single rfl .nil
  rw [operand, List.map_append, List.map_cons]
  exact .single rfl (n.spells_infixTokens.append hclose)

theorem balanced_operand (n : SignedNumber) : Token.Balanced n.operand :=
  n.balanced_infixTokens.group

/-- In reverse Polish order the sign of a number is no operator any more. -/
theorem ofInfix_infixTokens (n : SignedNumber) :
    ofInfix n.infixTokens = .ok (n.tokens ++ [.space]) := by
  have hparts : ∀ token ∈ n.magnitude.tokens, token.isNumberPart :=
    fun _ => PlainNumber.isNumberPart_of_mem_tokens
  have hrun : Yard.start.run n.infixTokens = .ok (Yard.start.takeNumber n.tokens false) := by
    obtain ⟨negative, magnitude⟩ := n
    cases negative with
    | false =>
      have hnumber : Yard.start.run (magnitude.tokens ++ []) = _ :=
        Yard.run_number magnitude.tokens_ne_nil hparts rfl rfl
      rw [List.append_nil] at hnumber
      exact hnumber
    | true =>
      have hnumber : Yard.start.run (.operator .sub :: [] ++ (magnitude.tokens ++ [])) = _ :=
        Yard.run_sign_number (by simp) magnitude.tokens_ne_nil hparts rfl rfl rfl
      rw [List.append_nil] at hnumber
      exact hnumber
  refine ofInfix_eq_ok_iff.mpr ⟨_, hrun, ?_⟩
  rw [Yard.result_of_operators [] rfl rfl rfl]
  simp [Yard.takeNumber, Yard.putAll, Yard.start]

/-- A number in parentheses is taken in as a whole. -/
theorem isOperand (n : SignedNumber) : Yard.IsOperand n.operand (n.tokens ++ [.space]) :=
  Yard.isOperand_group n.ofInfix_infixTokens

end SignedNumber

/-- The characters of a name are left alone. -/
theorem Spells.substitute {cs : List Char} {tokens : List Token} (h : Spells cs tokens)
    (n : SignedNumber) :
    Spells (cs.flatMap fun c => if c = 'x' then '(' :: n.chars ++ [')'] else [c])
      (replaceVar (n.operand.map Token.unmark) tokens) := by
  induction h with
  | nil => exact .nil
  | @single c cs token tokens hc _ ih =>
    rw [List.flatMap_cons]
    by_cases hx : c = 'x'
    · obtain rfl : token = .var := by
        rw [Token.ofChar?_eq_var_iff.mpr hx] at hc
        exact (Option.some.inj hc).symm
      rw [if_pos hx, replaceVar]
      exact n.spells_operand.append ih
    · have hvar : token ≠ .var := by
        intro hvar
        rw [hvar] at hc
        exact hx (Token.ofChar?_eq_var_iff.mp hc)
      rw [if_neg hx, replaceVar_cons_of_ne hvar]
      exact .single hc ih
  | pi _ ih => exact .pi ih
  | @call cs tokens f _ ih =>
    have hname : f.name.toList.flatMap
        (fun c => if c = 'x' then '(' :: n.chars ++ [')'] else [c]) = f.name.toList := by
      cases f <;> rfl
    rw [List.flatMap_append, hname, List.flatMap_cons, if_neg (by decide), List.singleton_append]
    exact .call f ih

theorem map_unmark_replaceVar (operand tokens : List Token) :
    (replaceVar operand tokens).map Token.unmark =
      replaceVar (operand.map Token.unmark) (tokens.map Token.unmark) := by
  induction tokens with
  | nil => rfl
  | cons token tokens ih => cases token <;> simp [replaceVar, ih, Token.unmark]

theorem foldlM_bracket_replaceVar {operand : List Token} (h : Token.Balanced operand)
    (tokens : List Token) (opened : List Token.Opened) :
    (replaceVar operand tokens).foldlM Token.bracket opened =
      tokens.foldlM Token.bracket opened := by
  induction tokens generalizing opened with
  | nil => rfl
  | cons token tokens ih =>
    by_cases hvar : token = .var
    · subst hvar
      rw [replaceVar, List.foldlM_append, h opened]
      exact ih opened
    · rw [replaceVar_cons_of_ne hvar, List.foldlM_cons, List.foldlM_cons]
      cases Token.bracket opened token with
      | none => rfl
      | some next => exact ih next

/-- The tokens of a text have an operand in the place of the variable. -/
theorem Lexer.tokens_substituteText {text : String} {tokens : List Token}
    (h : (Lexer.ofText standardNames text).tokens = .ok tokens) (n : SignedNumber) :
    (Lexer.ofText standardNames (substituteText n text)).tokens =
      .ok (replaceVar n.operand tokens) := by
  obtain ⟨hspells, left, hleft, hcall⟩ := Lexer.tokens_eq_ok_iff.mp h
  refine Lexer.tokens_eq_ok_iff.mpr ⟨?_, left, ?_, hcall⟩
  · rw [substituteText, String.toList_ofList, map_unmark_replaceVar]
    exact hspells.substitute n
  · rw [foldlM_bracket_replaceVar n.balanced_operand, hleft]

/-! ## Joining and building -/

namespace ReversePolish

/-- There is no variable in the row of a number. -/
theorem fill_of_isOfNumber {content tokens : List Token}
    (h : ∀ token ∈ tokens, isOfNumber token) : fill content tokens = tokens := by
  induction tokens with
  | nil => rfl
  | cons token tokens ih =>
    obtain ⟨hnumber, htokens⟩ := List.forall_mem_cons.mp h
    have htoken : fillToken content token = [token] := by
      cases token <;> first | rfl | cases hnumber
    rw [fill, htoken, ih htokens]
    rfl

/-- The digits in the place of the variable are joined with the other ones, and not to them. -/
theorem Joined.fill {apart joined content contentJoined : List Token} (h : Joined apart joined)
    (hcontent : Joined content contentJoined) :
    Joined (ReversePolish.fill content apart) (ReversePolish.fill contentJoined joined) := by
  induction h with
  | nil => exact .nil
  | @number n apart joined _ ih =>
    rw [fill_append, fill_of_isOfNumber fun _ => isOfNumber_of_mem_tokens]
    exact .number n ih
  | @symbol token htoken apart joined _ ih =>
    cases token with
    | var => exact hcontent.append ih
    | literal m => exact .symbol rfl ih
    | constant c => exact .symbol rfl ih
    | operator op => exact .symbol rfl ih
    | _ => cases htoken
  | fn f _ _ iharg ih => exact .fn f iharg ih

end ReversePolish

namespace Expr

/-- A literal in the place of the variable is a numeral there. -/
theorem fill_postOrder (n : Numeral) (e : Expr) :
    fill [.literal n] e.postOrder = (e.substitute n).postOrder := by
  induction e with
  | numeral m => rfl
  | constant c => rfl
  | var => rfl
  | binary op left right ihleft ihright =>
    rw [postOrder, fill_append, fill_append, ihleft, ihright]
    rfl
  | call f arg ih =>
    rw [postOrder, fill_singleton, fillToken, ih]
    rfl

/-- The expression of a list has a numeral in the place of the variable if the list has its
literal there. -/
theorem ofTokens_fill {tokens : List Token} {root : Expr} (h : ofTokens tokens = .ok root)
    (n : Numeral) : ofTokens (fill [.literal n] tokens) = .ok (root.substitute n) := by
  rw [← postOrder_of_ofTokens h, fill_postOrder]
  exact ofTokens_postOrder _

end Expr

/-! ## All stages -/

namespace Formula

/-- A text in which a number stands for the variable is read if the text with the variable is.
Its expression has the numeral in the place of the variable, so it has everywhere the value
that the other one has at the number. -/
theorem read_substituteText {text : String} {formula : Formula}
    (h : Formula.read text = .ok formula) (n : SignedNumber) :
    ∃ substituted, Formula.read (substituteText n text) = .ok substituted ∧
      substituted.root = formula.root.substitute n.numeral ∧
      ∀ y, substituted.eval y = formula.eval n.numeral.value := by
  obtain ⟨tokens, apart, htokens, hapart, hjoined, hroot⟩ := joined_of_read h
  have hinfix : ofInfix (replaceVar n.operand tokens) =
      .ok (fill (n.tokens ++ [.space]) apart) := by
    rw [ofInfix_replaceVar n.isOperand, hapart]
    rfl
  have hnumber : ReversePolish.Joined (n.tokens ++ [.space]) [.literal n.numeral] := .number n .nil
  have hfilled : joinDigits (fill (n.tokens ++ [.space]) apart) =
      .ok (fill [.literal n.numeral] formula.tokens) :=
    joinDigits_of_joined (hjoined.fill hnumber)
  refine ⟨⟨substituteText n text, fill [.literal n.numeral] formula.tokens,
    formula.root.substitute n.numeral⟩, ?_, rfl, ?_⟩
  · exact read_eq_ok_iff.mpr ⟨_, _, Lexer.tokens_substituteText htokens n, hinfix, hfilled,
      Expr.ofTokens_fill hroot n.numeral, rfl⟩
  · intro y
    exact Expr.eval_substitute n.numeral formula.root y

/-- The number is neither joined to the coefficient in front of it nor taken for one itself, and
its sign is no subtraction. -/
theorem read_substituteText_coefficient :
    let n : SignedNumber := ⟨true, [1], some [5], by simp⟩
    ∃ formula substituted, Formula.read "2x - x^3" = .ok formula ∧
      Formula.read "2(-1.5) - (-1.5)^3" = .ok substituted ∧
      substituted.root = formula.root.substitute n.numeral ∧
      ∀ y, substituted.eval y = formula.eval n.numeral.value := by
  intro n
  have hok : (Formula.read "2x - x^3").isOk := by decide +kernel
  obtain ⟨formula, hformula⟩ := Outcomes.exists_of_isOk hok
  obtain ⟨substituted, hsubstituted, hroot, heval⟩ := read_substituteText hformula n
  have htext : substituteText n "2x - x^3" = "2(-1.5) - (-1.5)^3" := rfl
  rw [htext] at hsubstituted
  exact ⟨formula, substituted, hformula, hsubstituted, hroot, heval⟩

end Formula

end Calculator
