import Calculator.Formula.Basic
import Calculator.Proofs.Expr.PostOrder
import Calculator.Proofs.Grammar.Basic
import Calculator.Proofs.Grammar.Climbing
import Calculator.Proofs.ReversePolish.Scopes
import Calculator.Proofs.ReversePolish.Substitution

/-!
# Every sentence is read as its tree

`Sentence.tree` is the expression that the precedence-climbing parser makes of a
sentence.  The yard comes to the same one, without looking ahead.

* `Pile.yard` is the state of the yard that a pile of waiting operators stands for.  The
  steps of the yard are the operations on the pile (`Pile.release_yard`,
  `Pile.step_yard`, `Pile.result_yard`).
* `Factor.run`, `Term.run` and `Row.run` follow the derivation of a sentence: a factor is
  one operand, a term is an operand with its multiplier, and a row is finished as its
  pile is.
* `Sentence.root_read` puts all stages together.  It asks for sentences in which no sign
  stands directly behind another one; the others are not read at all.
-/

namespace Calculator

open ReversePolish (Yard ofInfix joinDigits)

namespace Grammar

/-! ## Trees -/

/-- The number a sign stands for where no number follows it. -/
def minusOne : SignedNumber :=
  ⟨true, ⟨[⟨1, ReversePolish.one_lt_ten⟩], none, .inl (List.cons_ne_nil _ _)⟩⟩

mutual

/-- The expression of a factor. -/
def Factor.tree : Factor → Expr
  | .var => .var
  | .constant c => .constant c
  | .group _ row _ => (parse 1 row.operands.1 row.operands.2).tree
  | .call f _ row _ => .call f (parse 1 row.operands.1 row.operands.2).tree

/-- The operand a term is: a number with its sign, or a factor, with the number or the
sign in front of it as its multiplier. -/
def Term.operand : Term → Operand
  | .number n => .plain (.numeral (SignedNumber.mk false n).numeral)
  | .factor a => .plain a.tree
  | .scaled n a => .scaled (SignedNumber.mk false n).numeral a.tree
  | .negated _ (.number n) => .plain (.numeral (SignedNumber.mk true n).numeral)
  | .negated _ (.factor a) => .scaled minusOne.numeral a.tree
  | .negated _ (.scaled n a) => .scaled (SignedNumber.mk true n).numeral a.tree
  | .negated _ (.negated blanks t) =>
    -- A second sign would multiply what is behind it.
    .scaled minusOne.numeral (parse 1 (Term.operand (.negated blanks t)) []).tree

/-- The operands of a row, those behind the first with their operators. -/
def Row.operands : Row → Operand × List (Operator × Operand)
  | .last t => (t.operand, [])
  | .next t _ op _ row => (t.operand, (op, row.operands.1) :: row.operands.2)

end

/-- The expression of a row. -/
def Row.tree (row : Row) : Expr := (parse 1 row.operands.1 row.operands.2).tree

/-- The expression of a sentence. -/
def Sentence.tree (s : Sentence) : Expr := s.row.tree

/-! ## Piles in the yard -/

namespace Pile

/-- The state of the yard behind operators that wait for an operand. -/
def waitingYard (waiting : List (Expr × Operator)) : Yard :=
  { output := waiting.flatMap fun (left, _) => left.apart.reverse
    held := waiting.map fun (_, op) => .operator op }

/-- The state of the yard that a pile stands for. -/
def yard (pile : Pile) : Yard :=
  { output := pile.last.apart.reverse ++ (waitingYard pile.waiting).output
    held := (waitingYard pile.waiting).held
    expectsOperand := false }

/-- The yard sends on the operators that the pile applies. -/
theorem release_yard (goesOn : Operator → Bool) (pile : Pile) :
    pile.yard.release goesOn = (pile.reduce goesOn).yard := by
  obtain ⟨waiting, last⟩ := pile
  induction waiting generalizing last with
  | nil =>
    rw [reduce]
    rfl
  | cons top waiting ih =>
    obtain ⟨left, op⟩ := top
    rw [reduce]
    split
    · rename_i hgo
      rw [← ih]
      simp [Yard.release, yard, waitingYard, Yard.splitHeld, hgo, Yard.put, Expr.apart]
    · rename_i hstay
      simp [Yard.release, yard, waitingYard, Yard.splitHeld, hstay]

/-- Behind an operand, every operator is one between two operands. -/
theorem step_yard (pile : Pile) (op : Operator) (following : List Token) :
    pile.yard.step (.operator op) following = .ok (waitingYard (pile.operate op)) := by
  have hrelease := pile.release_yard fun waiting => op.precedence ≤ waiting.precedence
  refine Yard.step_eq_ok_iff.mpr (.inr ⟨rfl, _, rfl, ?_⟩)
  rw [if_neg (by simp [yard]), Yard.takeOperator, hrelease, operate]
  rfl

/-- At the end the yard puts out what the pile comes to. -/
theorem result_yard (pile : Pile) : pile.yard.result = .ok (pile.finish []).apart := by
  have hreduced : ∀ waiting last,
      (reduce (fun _ => true) ⟨waiting, last⟩).waiting = [] := by
    intro waiting
    induction waiting with
    | nil =>
      intro last
      rw [reduce]
    | cons top waiting ih =>
      intro last
      rw [reduce, if_pos rfl]
      exact ih _
  have hwaiting : (pile.reduce fun _ => true).waiting = [] := hreduced _ _
  have hrelease : pile.yard.releaseAll = (pile.reduce fun _ => true).yard :=
    pile.release_yard fun _ => true
  refine Yard.result_eq_ok_iff.mpr ?_
  rw [hrelease, finish]
  simp [yard, waitingYard, hwaiting]

end Pile

/-! ## Operands in the yard -/

/-- The state after an operand with its multiplier. -/
def takeTerm (yard : Yard) : Operand → Yard
  | .plain e => yard.takeOperand e.apart
  | .scaled m e => (yard.takeNumber m.tokens true).takeOperand e.apart

/-- A number by itself is an operand. -/
theorem takeNumber_eq_takeOperand {yard : Yard} (h : yard.coefficient = false)
    (tokens : List Token) :
    yard.takeNumber tokens false = yard.takeOperand (tokens ++ [.space]) := by
  rw [Yard.takeNumber, Yard.takeOperand, Yard.applyCoefficient, if_neg (by simp [h]),
    List.reverse_concat]

/-- The multiplication in front of an operand may be held back before. -/
theorem takeOperand_applyCoefficient (yard : Yard) (tokens : List Token) :
    Yard.takeOperand { yard.applyCoefficient with expectsOperand := true } tokens =
      yard.takeOperand tokens := by
  obtain ⟨output, calls, held, outer, coefficient, expects⟩ := yard
  cases coefficient <;> cases calls <;> rfl

/-- An operand is put on the pile. -/
theorem takeTerm_waitingYard (waiting : List (Expr × Operator)) (first : Operand) :
    takeTerm (Pile.waitingYard waiting) first = (Pile.put waiting first).yard := by
  cases first with
  | plain e => rfl
  | scaled m e =>
    simp [takeTerm, Yard.takeNumber, Yard.takeOperand, Yard.applyCoefficient, Yard.putAll,
      Yard.hold, Pile.put, Pile.yard, Pile.waitingYard, Expr.apart]

/-! ## Runs over a sentence -/

/-- Whether a term may end in front of these tokens. -/
def EndsTerm (rest : List Token) : Prop :=
  rest.head?.any Token.isNumberPart = false ∧ rest.head?.any Token.startsFactor = false

theorem endsTerm_blanks (blanks : Blanks) {rest : List Token} (h : EndsTerm rest) :
    EndsTerm (blanks.tokens ++ rest) := by
  cases htokens : blanks.tokens with
  | nil => exact h
  | cons token tokens =>
    have hmem : token ∈ blanks.tokens := by simp [htokens]
    obtain rfl := Blanks.eq_space_of_mem hmem
    exact ⟨rfl, rfl⟩

theorem Factor.startsFactor (a : Factor) (rest : List Token) :
    (a.tokens ++ rest).head?.any Token.startsFactor := by
  cases a <;> rfl

theorem Factor.not_isNumberPart (a : Factor) (rest : List Token) :
    (a.tokens ++ rest).head?.any Token.isNumberPart = false := by
  cases a <;> rfl

/-- A number is an operand by itself or the multiplier of the factor behind it. -/
theorem run_plainNumber (n : PlainNumber) {rest : List Token}
    (hrest : rest.head?.any Token.isNumberPart = false) {yard : Yard}
    (hcoefficient : yard.coefficient = false) :
    yard.run (n.tokens ++ rest) =
      (yard.takeNumber (SignedNumber.mk false n).numeral.tokens
        (rest.head?.any Token.startsFactor)).run rest := by
  rw [SignedNumber.tokens_numeral]
  exact Yard.run_number n.tokens_ne_nil (fun _ => PlainNumber.isNumberPart_of_mem_tokens)
    hrest hcoefficient

/-- The same with a sign in front of the number. -/
theorem run_negatedNumber (blanks : Blanks) (n : PlainNumber) {rest : List Token}
    (hrest : rest.head?.any Token.isNumberPart = false) {yard : Yard}
    (hcoefficient : yard.coefficient = false) (hexpects : yard.expectsOperand) :
    yard.run (.operator .sub :: blanks.tokens ++ (n.tokens ++ rest)) =
      (yard.takeNumber (SignedNumber.mk true n).numeral.tokens
        (rest.head?.any Token.startsFactor)).run rest := by
  rw [SignedNumber.tokens_numeral]
  exact Yard.run_sign_number (fun _ => Blanks.eq_space_of_mem) n.tokens_ne_nil
    (fun _ => PlainNumber.isNumberPart_of_mem_tokens) hrest hcoefficient hexpects

/-- A row in reverse Polish order is its tree, once it is known how its piles are finished. -/
theorem Row.ofInfix_of_run {row : Row}
    (hrun : ∀ waiting (after : Blanks), ∃ yard,
      (Pile.waitingYard waiting).run (row.tokens ++ after.tokens) = .ok yard ∧
      yard.result = .ok ((Pile.put waiting row.operands.1).finish row.operands.2).apart)
    (before after : Blanks) :
    ofInfix (before.tokens ++ row.tokens ++ after.tokens) = .ok row.tree.apart := by
  obtain ⟨yard, hyard, hresult⟩ := hrun [] after
  rw [Pile.finish_put] at hresult
  refine ReversePolish.ofInfix_eq_ok_iff.mpr ⟨yard, ?_, hresult⟩
  rw [List.append_assoc, Yard.run_spaces fun _ => Blanks.eq_space_of_mem]
  exact hyard

mutual

/-- The tokens of a factor are one operand. -/
theorem Factor.run : (a : Factor) → a.signsApart → (yard : Yard) → (rest : List Token) →
    yard.run (a.tokens ++ rest) = (yard.takeOperand a.tree.apart).run rest
  | .var, _, yard, rest => Yard.run_cons_of_step (Yard.step_var yard rest)
  | .constant c, _, yard, rest => Yard.run_cons_of_step (Yard.step_constant yard c rest)
  | .group before row after, h, yard, rest => by
    have hbody : ofInfix (before.tokens ++ row.tokens ++ after.tokens) = .ok row.tree.apart :=
      Row.ofInfix_of_run (Row.run row h) before after
    have hrun := Yard.run_group hbody yard rest
    rw [Factor.tokens, List.append_assoc]
    exact hrun
  | .call f before row after, h, yard, rest => by
    have hbody : ofInfix (before.tokens ++ row.tokens ++ after.tokens) = .ok row.tree.apart :=
      Row.ofInfix_of_run (Row.run row h) before after
    have hrun := Yard.run_call hbody f [] yard rest
    rw [Factor.tokens, List.append_assoc]
    exact hrun

/-- The tokens of a term are one operand with its multiplier. -/
theorem Term.run : (t : Term) → t.signsApart → {yard : Yard} → yard.coefficient = false →
    yard.expectsOperand → {rest : List Token} → EndsTerm rest →
    yard.run (t.tokens ++ rest) = (takeTerm yard t.operand).run rest
  | .number n, _, yard, hcoefficient, _, rest, hrest => by
    have hnumber := run_plainNumber n hrest.1 hcoefficient
    rw [hrest.2, takeNumber_eq_takeOperand hcoefficient] at hnumber
    exact hnumber
  | .factor a, h, yard, _, _, rest, _ => Factor.run a h yard rest
  | .scaled n a, h, yard, hcoefficient, _, rest, _ => by
    have hnumber := run_plainNumber n (a.not_isNumberPart rest) hcoefficient
    rw [a.startsFactor, Factor.run a h] at hnumber
    rw [Term.tokens, List.append_assoc]
    exact hnumber
  | .negated blanks (.number n), _, yard, hcoefficient, hexpects, rest, hrest => by
    have hnumber := run_negatedNumber blanks n hrest.1 hcoefficient hexpects
    rw [hrest.2, takeNumber_eq_takeOperand hcoefficient] at hnumber
    rw [Term.tokens, Term.tokens, ← List.cons_append, List.append_assoc]
    exact hnumber
  | .negated blanks (.factor a), h, yard, hcoefficient, hexpects, rest, _ => by
    have hspaces : ∀ token ∈ blanks.tokens, token = .space := fun _ => Blanks.eq_space_of_mem
    have hsign := Yard.run_sign_factor hspaces (a.startsFactor rest) hcoefficient hexpects
    rw [Factor.run a h, takeOperand_applyCoefficient] at hsign
    rw [Term.tokens, Term.tokens, ← List.cons_append, List.append_assoc, hsign, Term.operand,
      takeTerm, SignedNumber.tokens_numeral]
    rfl
  | .negated blanks (.scaled n a), h, yard, hcoefficient, hexpects, rest, _ => by
    have hnumber := run_negatedNumber blanks n (a.not_isNumberPart rest) hcoefficient hexpects
    rw [a.startsFactor, Factor.run a h] at hnumber
    rw [Term.tokens, Term.tokens, ← List.cons_append, List.append_assoc, List.append_assoc]
    exact hnumber
  | .negated blanks (.negated more t), h, _, _, _, _, _ => by
    cases h

/-- The tokens of a row are finished as its pile is. -/
theorem Row.run : (row : Row) → row.signsApart → (waiting : List (Expr × Operator)) →
    (after : Blanks) → ∃ yard,
      (Pile.waitingYard waiting).run (row.tokens ++ after.tokens) = .ok yard ∧
      yard.result = .ok ((Pile.put waiting row.operands.1).finish row.operands.2).apart
  | .last t, h, waiting, after => by
    refine ⟨(Pile.put waiting t.operand).yard, ?_, Pile.result_yard _⟩
    have hends : EndsTerm (after.tokens ++ []) := endsTerm_blanks after ⟨rfl, rfl⟩
    rw [List.append_nil] at hends
    rw [Row.tokens, Term.run t h rfl rfl hends, takeTerm_waitingYard,
      ← List.append_nil after.tokens, Yard.run_spaces fun _ => Blanks.eq_space_of_mem]
    rfl
  | .next t before op blanks row, h, waiting, after => by
    obtain ⟨ht, hrow⟩ : t.signsApart ∧ row.signsApart := by
      simpa [Row.signsApart] using h
    obtain ⟨yard, hrun, hresult⟩ :=
      Row.run row hrow ((Pile.put waiting t.operand).operate op) after
    refine ⟨yard, ?_, hresult⟩
    rw [← hrun, Row.tokens]
    simp only [List.append_assoc, List.cons_append]
    rw [Term.run t ht rfl rfl (endsTerm_blanks before ⟨rfl, rfl⟩), takeTerm_waitingYard,
      Yard.run_spaces fun _ => Blanks.eq_space_of_mem,
      Yard.run_cons_of_step (Pile.step_yard _ op _),
      Yard.run_spaces fun _ => Blanks.eq_space_of_mem]

end

/-! ## Numerals of a tree -/

/-- Whether the numerals of an operand are plain numbers. -/
def Operand.IsPlain : Operand → Prop
  | .plain e => e.IsPlain
  | .scaled m e => Expr.IsPlain (.numeral m) ∧ e.IsPlain

namespace Pile

/-- Whether all numerals on a pile are plain numbers. -/
def IsPlain (pile : Pile) : Prop :=
  (∀ top ∈ pile.waiting, top.1.IsPlain) ∧ pile.last.IsPlain

theorem isPlain_reduce (goesOn : Operator → Bool) {pile : Pile} (h : pile.IsPlain) :
    (pile.reduce goesOn).IsPlain := by
  obtain ⟨waiting, last⟩ := pile
  induction waiting generalizing last with
  | nil =>
    rw [reduce]
    exact h
  | cons top waiting ih =>
    obtain ⟨left, op⟩ := top
    obtain ⟨hwaiting, hlast⟩ := h
    have hleft : left.IsPlain := hwaiting _ List.mem_cons_self
    rw [reduce]
    split
    · exact ih _ ⟨fun top hmem => hwaiting top (List.mem_cons_of_mem _ hmem), hleft, hlast⟩
    · exact ⟨hwaiting, hlast⟩

theorem isPlain_put {waiting : List (Expr × Operator)} (h : ∀ top ∈ waiting, top.1.IsPlain)
    {first : Operand} (hfirst : first.IsPlain) : (put waiting first).IsPlain := by
  cases first with
  | plain e => exact ⟨h, hfirst⟩
  | scaled m e =>
    refine ⟨?_, hfirst.2⟩
    intro top hmem
    rcases List.mem_cons.mp hmem with rfl | hmem
    · exact hfirst.1
    · exact h top hmem

theorem isPlain_finish {row : List (Operator × Operand)} (hrow : ∀ entry ∈ row, entry.2.IsPlain)
    {pile : Pile} (h : pile.IsPlain) : (pile.finish row).IsPlain := by
  induction row generalizing pile with
  | nil => exact (isPlain_reduce _ h).2
  | cons entry row ih =>
    have hreduced :=
      isPlain_reduce (fun waiting => entry.1.precedence ≤ waiting.precedence) h
    refine ih (fun entry hmem => hrow entry (List.mem_cons_of_mem _ hmem)) (isPlain_put ?_ ?_)
    · intro top hmem
      rcases List.mem_cons.mp hmem with rfl | hmem
      · exact hreduced.2
      · exact hreduced.1 top hmem
    · exact hrow entry List.mem_cons_self

end Pile

theorem isPlain_parse {first : Operand} {row : List (Operator × Operand)}
    (hfirst : first.IsPlain) (hrow : ∀ entry ∈ row, entry.2.IsPlain) :
    (parse 1 first row).tree.IsPlain := by
  rw [← Pile.finish_put]
  exact Pile.isPlain_finish hrow (Pile.isPlain_put (by simp) hfirst)

mutual

theorem Factor.isPlain_tree : (a : Factor) → a.tree.IsPlain
  | .var => trivial
  | .constant _ => trivial
  | .group _ row _ => isPlain_parse row.isPlain_operands.1 row.isPlain_operands.2
  | .call _ _ row _ => isPlain_parse row.isPlain_operands.1 row.isPlain_operands.2

theorem Term.isPlain_operand : (t : Term) → t.operand.IsPlain
  | .number _ => ⟨_, rfl⟩
  | .factor a => a.isPlain_tree
  | .scaled _ a => ⟨⟨_, rfl⟩, a.isPlain_tree⟩
  | .negated _ (.number _) => ⟨_, rfl⟩
  | .negated _ (.factor a) => ⟨⟨_, rfl⟩, a.isPlain_tree⟩
  | .negated _ (.scaled _ a) => ⟨⟨_, rfl⟩, a.isPlain_tree⟩
  | .negated _ (.negated blanks t) =>
    ⟨⟨_, rfl⟩, isPlain_parse (Term.isPlain_operand (.negated blanks t)) (by simp)⟩

theorem Row.isPlain_operands : (row : Row) →
    row.operands.1.IsPlain ∧ ∀ entry ∈ row.operands.2, entry.2.IsPlain
  | .last t => ⟨t.isPlain_operand, by simp [Row.operands]⟩
  | .next t _ _ _ row => by
    refine ⟨t.isPlain_operand, ?_⟩
    intro entry hmem
    rcases List.mem_cons.mp hmem with rfl | hmem
    · exact row.isPlain_operands.1
    · exact row.isPlain_operands.2 entry hmem

end

/-! ## All stages -/

/-- A sentence in which no sign stands directly behind another one is read as the expression
that the precedence-climbing parser makes of it. -/
theorem Sentence.root_read (s : Sentence) (h : s.signsApart) :
    (Formula.read s.text).map Formula.root = .ok s.tree := by
  have hinfix : ofInfix s.tokens = .ok s.tree.apart :=
    Row.ofInfix_of_run (Row.run s.row h) s.before s.after
  have hplain : s.tree.IsPlain :=
    isPlain_parse s.row.isPlain_operands.1 s.row.isPlain_operands.2
  have hjoin : joinDigits s.tree.apart = .ok s.tree.postOrder :=
    ReversePolish.joinDigits_of_joined (Expr.joined_apart hplain)
  have htree : Expr.ofTokens s.tree.postOrder = .ok s.tree := Expr.ofTokens_postOrder s.tree
  rw [Formula.read, Formula.readWith, s.tokens_text]
  simp only [bind, Except.bind, hinfix, hjoin, htree]
  rfl

/-- The multiplier `-2` takes in the square, but neither the division behind it nor the
subtraction in front of it. -/
theorem Sentence.root_read_multiplier :
    let blank : Blanks := ⟨[' '], List.forall_mem_singleton.mpr rfl⟩
    let none : Blanks := ⟨[], by simp⟩
    let digit (d : Fin 10) : PlainNumber := ⟨[d], .none, by simp⟩
    let s : Sentence :=
      ⟨none, .next (.number (digit 8)) blank .sub blank
        (.next (.negated blank (.scaled (digit 2) .var)) none .pow none
          (.next (.number (digit 3)) none .div none
            (.last (.factor (.call .sin none (.last (.negated none (.factor .var))) none))))),
        none⟩
    s.text = "8 - - 2x^3/sin(-x)" ∧ s.signsApart ∧
      (Formula.read "8 - - 2x^3/sin(-x)").map Formula.root =
        .ok (.binary .sub (.numeral (SignedNumber.mk false (digit 8)).numeral)
          (.binary .div
            (.binary .mul (.numeral (SignedNumber.mk true (digit 2)).numeral)
              (.binary .pow .var (.numeral (SignedNumber.mk false (digit 3)).numeral)))
            (.call .sin (.binary .mul (.numeral minusOne.numeral) .var)))) := by
  intro blank none digit s
  have htext : s.text = "8 - - 2x^3/sin(-x)" := rfl
  have hsigns : s.signsApart := rfl
  have hread := Sentence.root_read s hsigns
  rw [htext] at hread
  refine ⟨htext, hsigns, ?_⟩
  rw [hread]
  simp only [s, Sentence.tree, Row.tree, Row.operands, Term.operand, Factor.tree,
    ← Pile.finish_put]
  simp [Pile.finish, Pile.put, Pile.operate, Pile.reduce, Operator.precedence]

end Grammar

end Calculator
