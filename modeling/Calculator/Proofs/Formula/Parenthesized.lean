import Calculator.Proofs.Formula.Substitution
import Calculator.Proofs.Grammar.Reading
import Calculator.Proofs.ReversePolish.Order

/-!
# Texts in parentheses as parts of other texts

A text that is read as an expression can be put in parentheses and so become an operand,
an argument or a factor.  The expression of the whole has that of the text in its place,
whatever stands at the borders of the text.

* `ofInfix_binary`, `ofInfix_multiplied` and `ofInfix_negated` say what the yard makes of
  one or two operands with an operator, a number or a sign.
* `Written` are all other stages: what the characters spell, and what the digits are
  joined to.
* `Formula.readsAs_of_written` and `Formula.ReadsAs.exists_written`: these are all that is
  needed to read a text.
* `Expr.parenthesized` writes an expression with every operand in parentheses, and reading
  gives it back.
-/

namespace Calculator

open ReversePolish
open Grammar (minusOne takeOperand_applyCoefficient)

namespace ReversePolish

/-! ## Operands in the yard -/

theorem result_takeOperand (content : List Token) :
    (Yard.start.takeOperand content).result = .ok content := by
  rw [Yard.result_of_operators [] rfl rfl rfl]
  simp [Yard.takeOperand, Yard.applyCoefficient, Yard.putAll, Yard.start]

/-- One operand is all of a formula. -/
theorem ofInfix_operand {operand content : List Token} (h : Yard.IsOperand operand content) :
    ofInfix operand = .ok content := by
  have hrun := h.run_append Yard.start []
  rw [List.append_nil] at hrun
  exact ofInfix_eq_ok_iff.mpr ⟨_, hrun, result_takeOperand content⟩

/-- An operator goes behind both of its operands. -/
theorem ofInfix_binary {left right a b : List Token} (hleft : Yard.IsOperand left a)
    (hright : Yard.IsOperand right b) (op : Operator) :
    ofInfix (left ++ .operator op :: right) = .ok (a ++ b ++ [.operator op]) := by
  let waiting : Yard :=
    { (Yard.start.takeOperand a).hold op with expectsOperand := true }
  have hstep : (Yard.start.takeOperand a).step (.operator op) right = .ok waiting := by
    refine Yard.step_eq_ok_iff.mpr (.inr ⟨rfl, _, rfl, ?_⟩)
    rw [if_neg (by simp [Yard.takeOperand])]
    rfl
  have hrun : Yard.start.run (left ++ .operator op :: right) = .ok (waiting.takeOperand b) := by
    have hrest := hright.run_append waiting []
    rw [List.append_nil] at hrest
    rw [hleft.run_append, Yard.run_cons_of_step hstep, hrest]
    rfl
  refine ofInfix_eq_ok_iff.mpr ⟨_, hrun, ?_⟩
  rw [Yard.result_of_operators [op] rfl rfl rfl]
  simp [waiting, Yard.takeOperand, Yard.hold, Yard.applyCoefficient, Yard.putAll, Yard.start]

/-- An operand behind a number is multiplied by it. -/
theorem result_takeNumber_takeOperand (number content : List Token) :
    ((Yard.start.takeNumber number true).takeOperand content).result =
      .ok (number ++ .space :: content ++ [.operator .mul]) := by
  rw [Yard.result_of_operators [.mul] rfl rfl rfl]
  simp [Yard.takeNumber, Yard.takeOperand, Yard.hold, Yard.applyCoefficient, Yard.putAll,
    Yard.start]

theorem ofInfix_multiplied {parts operand content : List Token} (hne : parts ≠ [])
    (hparts : ∀ token ∈ parts, token.isNumberPart) (h : Yard.IsOperand operand content) :
    ofInfix (parts ++ operand) = .ok (parts ++ .space :: content ++ [.operator .mul]) := by
  have hnumber : operand.head?.any Token.isNumberPart = false := by
    cases operand with
    | nil => rfl
    | cons first operand =>
      have hfactor : first.startsFactor := h.startsFactor
      show first.isNumberPart = false
      cases first <;> first | rfl | cases hfactor
  have hrun : Yard.start.run (parts ++ operand) = _ := Yard.run_number hne hparts hnumber rfl
  have hoperand := h.run_append (Yard.start.takeNumber parts true) []
  rw [List.append_nil] at hoperand
  rw [h.startsFactor, hoperand] at hrun
  exact ofInfix_eq_ok_iff.mpr ⟨_, hrun, result_takeNumber_takeOperand parts content⟩

theorem ofInfix_negated {operand content : List Token} (h : Yard.IsOperand operand content) :
    ofInfix (.operator .sub :: operand) =
      .ok (minusOne.tokens ++ .space :: content ++ [.operator .mul]) := by
  have hrun : Yard.start.run (.operator .sub :: [] ++ operand) = _ :=
    Yard.run_sign_factor (by simp) h.startsFactor rfl rfl
  have hoperand := h.run_append { (Yard.start.takeNumber minusOne.tokens true).applyCoefficient
    with expectsOperand := true } []
  rw [List.append_nil, takeOperand_applyCoefficient] at hoperand
  exact ofInfix_eq_ok_iff.mpr
    ⟨_, hrun.trans hoperand, result_takeNumber_takeOperand minusOne.tokens content⟩

end ReversePolish

/-! ## The other stages -/

/-- The characters spell the tokens, and the tokens in reverse Polish order are joined to those
of the expression. -/
structure Written (cs : List Char) (root : Expr) (tokens apart : List Token) : Prop where
  spells : Spells cs (tokens.map Token.unmark)
  balanced : Token.Balanced tokens
  joined : Joined apart root.postOrder

namespace Written

variable {cs ds : List Char} {root other : Expr} {tokens apart tokens' apart' : List Token}

theorem spells_append (h : Written cs root tokens apart)
    (hmore : Spells ds (tokens'.map Token.unmark)) :
    Spells (cs ++ ds) ((tokens ++ tokens').map Token.unmark) := by
  rw [List.map_append]
  exact h.spells.append hmore

theorem group (h : Written cs root tokens apart) :
    Written ('(' :: (cs ++ [')'])) root (.openGroup :: tokens ++ [.closeGroup]) apart where
  spells := .single rfl (h.spells_append (.single rfl .nil))
  balanced := h.balanced.group
  joined := h.joined

theorem call (h : Written cs root tokens apart) (f : Fn) :
    Written (f.name.toList ++ '(' :: (cs ++ [')'])) (.call f root)
      (.fn f [] :: .openCall :: tokens ++ [.closeCall]) [.fn f apart] where
  spells := .call f (h.spells_append (.single rfl .nil))
  balanced := h.balanced.call f []
  joined := .fn f h.joined .nil

theorem binary (h : Written cs root tokens apart) (h' : Written ds other tokens' apart')
    (op : Operator) :
    Written (cs ++ op.symbol :: ds) (.binary op root other) (tokens ++ .operator op :: tokens')
      (apart ++ apart' ++ [.operator op]) where
  spells := h.spells_append (.single (Token.ofChar?_symbol op) h'.spells)
  balanced := h.balanced.append (h'.balanced.cons fun _ => rfl)
  joined := (h.joined.append h'.joined).append (.symbol rfl .nil)

theorem multiplied (h : Written cs root tokens apart) (n : PlainNumber) :
    Written (n.chars ++ cs) (.binary .mul (.numeral (SignedNumber.mk false n).numeral) root)
      (n.tokens ++ tokens) (n.tokens ++ .space :: apart ++ [.operator .mul]) where
  spells := by
    rw [List.map_append]
    exact n.spells.append h.spells
  balanced := n.balanced.append h.balanced
  joined := (Joined.number ⟨false, n⟩ h.joined).append (.symbol rfl .nil)

theorem negated (h : Written cs root tokens apart) :
    Written ('-' :: cs) (.binary .mul (.numeral minusOne.numeral) root)
      (.operator .sub :: tokens) (minusOne.tokens ++ .space :: apart ++ [.operator .mul]) where
  spells := .single rfl h.spells
  balanced := h.balanced.cons fun _ => rfl
  joined := (Joined.number minusOne h.joined).append (.symbol rfl .nil)

theorem number (n : SignedNumber) :
    Written n.chars (.numeral n.numeral) n.infixTokens (n.tokens ++ [.space]) where
  spells := n.spells_infixTokens
  balanced := n.balanced_infixTokens
  joined := .number n .nil

theorem constant (c : Constant) :
    Written c.name.toList (.constant c) [.constant c] [.constant c] where
  spells := by
    cases c with
    | pi => exact .pi .nil
    | e => exact .single rfl .nil
  balanced := Token.balanced_nil.cons fun _ => rfl
  joined := .symbol rfl .nil

theorem var : Written ['x'] .var [.var] [.var] where
  spells := .single rfl .nil
  balanced := Token.balanced_nil.cons fun _ => rfl
  joined := .symbol rfl .nil

end Written

/-! ## All stages -/

/-- An expression written with every operand in parentheses. -/
def Expr.parenthesized : Expr → String
  | numeral n => n.text
  | constant c => c.name
  | var => "x"
  | binary op left right =>
    "(" ++ left.parenthesized ++ ")" ++ String.singleton op.symbol ++
      "(" ++ right.parenthesized ++ ")"
  | call f arg => f.name ++ "(" ++ arg.parenthesized ++ ")"

namespace Formula

/-- Whether a text is accepted and its expression is `root`. -/
def ReadsAs (text : String) (root : Expr) : Prop :=
  ∃ formula, Formula.read text = .ok formula ∧ formula.root = root

/-- A text is read as an expression if its characters are written like that. -/
theorem readsAs_of_written {text : String} {cs : List Char} {root : Expr}
    {tokens apart : List Token} (htext : text.toList = cs) (h : Written cs root tokens apart)
    (hapart : ofInfix tokens = .ok apart) : ReadsAs text root := by
  subst htext
  have htokens : (Lexer.ofText standardNames text).tokens = .ok tokens :=
    Lexer.tokens_eq_ok_iff.mpr ⟨h.spells, [], h.balanced [], List.not_mem_nil⟩
  have hjoined : joinDigits apart = .ok root.postOrder := joinDigits_of_joined h.joined
  refine ⟨⟨text, root.postOrder, root⟩, ?_, rfl⟩
  exact read_eq_ok_iff.mpr
    ⟨tokens, apart, htokens, hapart, hjoined, Expr.ofTokens_postOrder root, rfl⟩

/-- Every text that is read is written like that. -/
theorem ReadsAs.exists_written {text : String} {root : Expr} (h : ReadsAs text root) :
    ∃ tokens apart, Written text.toList root tokens apart ∧ ofInfix tokens = .ok apart := by
  obtain ⟨formula, hread, rfl⟩ := h
  obtain ⟨tokens, apart, htokens, hapart, hjoined, hroot⟩ := joined_of_read hread
  obtain ⟨hspells, -⟩ := Lexer.tokens_eq_ok_iff.mp htokens
  have hbalanced := Token.balanced_of_foldlM (foldlM_bracket_ofInfix hapart)
  rw [← Expr.postOrder_of_ofTokens hroot] at hjoined
  exact ⟨tokens, apart, ⟨hspells, hbalanced, hjoined⟩, hapart⟩

namespace ReadsAs

variable {text other : String} {root root' : Expr}

theorem group (h : ReadsAs text root) : ReadsAs ("(" ++ text ++ ")") root := by
  obtain ⟨tokens, apart, hwritten, hapart⟩ := h.exists_written
  have hoperand := Yard.isOperand_group hapart
  exact readsAs_of_written (by simp) hwritten.group (ofInfix_operand hoperand)

theorem call (h : ReadsAs text root) (f : Fn) :
    ReadsAs (f.name ++ "(" ++ text ++ ")") (.call f root) := by
  obtain ⟨tokens, apart, hwritten, hapart⟩ := h.exists_written
  have hoperand := Yard.isOperand_call hapart f []
  exact readsAs_of_written (by simp) (hwritten.call f) (ofInfix_operand hoperand)

theorem binary (h : ReadsAs text root) (h' : ReadsAs other root') (op : Operator) :
    ReadsAs ("(" ++ text ++ ")" ++ String.singleton op.symbol ++ "(" ++ other ++ ")")
      (.binary op root root') := by
  obtain ⟨tokens, apart, hwritten, hapart⟩ := h.exists_written
  obtain ⟨tokens', apart', hwritten', hapart'⟩ := h'.exists_written
  have hinfix := ofInfix_binary (Yard.isOperand_group hapart) (Yard.isOperand_group hapart') op
  exact readsAs_of_written (by simp) (hwritten.group.binary hwritten'.group op) hinfix

theorem multiplied (h : ReadsAs text root) (n : PlainNumber) :
    ReadsAs (String.ofList n.chars ++ "(" ++ text ++ ")")
      (.binary .mul (.numeral (SignedNumber.mk false n).numeral) root) := by
  obtain ⟨tokens, apart, hwritten, hapart⟩ := h.exists_written
  have hinfix := ofInfix_multiplied n.tokens_ne_nil
    (fun _ => PlainNumber.isNumberPart_of_mem_tokens) (Yard.isOperand_group hapart)
  exact readsAs_of_written (by simp) (hwritten.group.multiplied n) hinfix

theorem negated (h : ReadsAs text root) :
    ReadsAs ("-(" ++ text ++ ")") (.binary .mul (.numeral minusOne.numeral) root) := by
  obtain ⟨tokens, apart, hwritten, hapart⟩ := h.exists_written
  have hinfix := ofInfix_negated (Yard.isOperand_group hapart)
  exact readsAs_of_written (by simp) hwritten.group.negated hinfix

/-- An expression with all its operands in parentheses is read back. -/
theorem parenthesized {e : Expr} (h : e.IsPlain) : ReadsAs e.parenthesized e := by
  induction e with
  | numeral n =>
    obtain ⟨m, rfl⟩ := h
    have htext : m.numeral.text.toList = m.chars := by
      rw [m.text_numeral, SignedNumber.text, String.toList_ofList]
    exact readsAs_of_written htext (.number m) m.ofInfix_infixTokens
  | constant c => exact readsAs_of_written rfl (.constant c) rfl
  | var => exact readsAs_of_written rfl .var rfl
  | binary op left right ihleft ihright => exact (ihleft h.1).binary (ihright h.2) op
  | call f arg ih => exact (ih h).call f

end ReadsAs

/-- Reading goes along with putting texts together: in parentheses, an accepted text is an operand
with its own expression, an argument or a factor.  So an expression with every operand in
parentheses is read back. -/
theorem readsAs_homomorphism :
    (∀ (text : String) (root : Expr), ReadsAs text root →
      ReadsAs ("(" ++ text ++ ")") root ∧
      (∀ (other : String) (root' : Expr) (op : Operator), ReadsAs other root' →
        ReadsAs ("(" ++ text ++ ")" ++ String.singleton op.symbol ++ "(" ++ other ++ ")")
          (.binary op root root')) ∧
      (∀ name f, (name, f) ∈ Fn.table → ReadsAs (name ++ "(" ++ text ++ ")") (.call f root)) ∧
      ReadsAs ("-(" ++ text ++ ")") (.binary .mul (.numeral minusOne.numeral) root) ∧
      ∀ n : PlainNumber, ReadsAs (String.ofList n.chars ++ "(" ++ text ++ ")")
        (.binary .mul (.numeral (SignedNumber.mk false n).numeral) root)) ∧
    ∀ root : Expr, root.IsPlain → ReadsAs root.parenthesized root := by
  constructor
  · intro text root h
    refine ⟨h.group, fun other root' op h' => h.binary h' op, ?_, h.negated, h.multiplied⟩
    intro name f hmem
    obtain ⟨g, -, hentry⟩ := List.mem_map.mp hmem
    cases hentry
    exact h.call f
  · intro root hplain
    exact .parenthesized hplain

/-- An operator at the border of the text, and a number at the border of what it becomes. -/
theorem readsAs_homomorphism_border :
    ∃ root, ReadsAs "x - 1" root ∧ ReadsAs "(x - 1)" root ∧
      ReadsAs "(x - 1)^(x - 1)" (.binary .pow root root) ∧
      ReadsAs "ln(x - 1)" (.call .ln root) ∧
      ReadsAs "-(x - 1)" (.binary .mul (.numeral minusOne.numeral) root) ∧
      ReadsAs "2(x - 1)"
        (.binary .mul (.numeral (SignedNumber.mk false ⟨[2], none, by simp⟩).numeral) root) ∧
      ReadsAs "(-1)-(sin(x))"
        (.binary .sub (.numeral minusOne.numeral) (.call .sin .var)) := by
  have hok : (Formula.read "x - 1").isOk := by decide +kernel
  obtain ⟨formula, hformula⟩ := Outcomes.exists_of_isOk hok
  have hread : ReadsAs "x - 1" formula.root := ⟨formula, hformula, rfl⟩
  obtain ⟨hparts, hparenthesized⟩ := readsAs_homomorphism
  obtain ⟨hgroup, hbinary, hcall, hnegated, hmultiplied⟩ := hparts _ _ hread
  have hbinarytext : "(" ++ "x - 1" ++ ")" ++ String.singleton Operator.pow.symbol ++
      "(" ++ "x - 1" ++ ")" = "(x - 1)^(x - 1)" := by decide +kernel
  have hnumbertext : String.ofList (PlainNumber.mk [2] none (by simp)).chars ++ "(" ++ "x - 1" ++
      ")" = "2(x - 1)" := by decide +kernel
  have htext : Expr.parenthesized
      (.binary .sub (.numeral minusOne.numeral) (.call .sin .var)) = "(-1)-(sin(x))" := by
    rw [Expr.parenthesized, Expr.parenthesized, minusOne.text_numeral]
    decide +kernel
  refine ⟨formula.root, hread, hgroup, ?_, hcall "ln" .ln (by decide), hnegated, ?_, ?_⟩
  · rw [← hbinarytext]
    exact hbinary "x - 1" formula.root .pow hread
  · rw [← hnumbertext]
    exact hmultiplied _
  · rw [← htext]
    exact hparenthesized _ ⟨⟨minusOne, rfl⟩, trivial⟩

end Formula

end Calculator
