import Calculator.Proofs.ReversePolish.Steps
import Mathlib.Algebra.BigOperators.Group.List.Basic
import Mathlib.Tactic.Abel

/-!
# Reordering loses nothing

Every token is given a measure in a commutative monoid, and `total` adds up the
measures in a list and in all arguments in it.  Which monoid it is does not matter:
with numbers it counts tokens of some kind, with multisets it collects them.

* `Yard.total` measures all that a state has put out or holds back, and
  `Yard.intake` what a token brings in: itself, the space at the end of a number, the
  multiplication that a number stands for, the `-1` of a sign.
* `Yard.total_step` is the law of one step.  `total_ofInfix` is the law of a whole
  formula: the output has the measure of what its tokens brought in.
-/

namespace Calculator.ReversePolish

section Total

variable {M : Type} [AddCommMonoid M] (μ : Token → M)

mutual

/-- The measure of a token, with that of everything in its argument. -/
def totalToken : Token → M
  | .fn f arg => μ (.fn f []) + total arg
  | token => μ token

/-- The measures of all tokens of a list, at every depth. -/
def total : List Token → M
  | [] => 0
  | token :: tokens => totalToken token + total tokens

end

theorem total_append (tokens more : List Token) :
    total μ (tokens ++ more) = total μ tokens + total μ more := by
  induction tokens with
  | nil => simp [total]
  | cons token tokens ih => simp only [List.cons_append, total, ih, add_assoc]

theorem total_reverse (tokens : List Token) : total μ tokens.reverse = total μ tokens := by
  induction tokens with
  | nil => rfl
  | cons token tokens ih =>
    rw [List.reverse_cons, total_append, ih]
    simp only [total, add_zero]
    exact add_comm _ _

/-- The measure of the operators on a stack. -/
def heldTotal : List Held → M
  | [] => 0
  | .operator op :: held => μ (.operator op) + heldTotal held
  | .group :: held => heldTotal held

namespace Yard

/-- The measure of all that a state has put out or holds back. -/
def total (yard : Yard) : M :=
  ReversePolish.total μ yard.output +
    (yard.calls.map fun (f, arg) => μ (.fn f []) + ReversePolish.total μ arg).sum +
    (heldTotal μ yard.held + (yard.outer.map (heldTotal μ)).sum) +
    if yard.coefficient then μ (.operator .mul) else 0

theorem total_put (yard : Yard) (token : Token) :
    (yard.put token).total μ = yard.total μ + totalToken μ token := by
  obtain ⟨output, calls, held, outer, coefficient, expects⟩ := yard
  cases calls with
  | nil =>
    simp only [put, total, ReversePolish.total]
    abel
  | cons call calls =>
    simp only [put, total, ReversePolish.total, List.map_cons, List.sum_cons]
    abel

theorem total_putAll (yard : Yard) (tokens : List Token) :
    (yard.putAll tokens).total μ = yard.total μ + ReversePolish.total μ tokens := by
  induction tokens with
  | nil => rw [putAll_nil, ReversePolish.total, add_zero]
  | cons token tokens ih =>
    rw [putAll_cons, total_put, ih, ReversePolish.total]
    abel

theorem total_hold (yard : Yard) (op : Operator) :
    (yard.hold op).total μ = yard.total μ + μ (.operator op) := by
  simp only [hold, total, heldTotal]
  abel

theorem heldTotal_splitHeld (goesOn : Operator → Bool) (held : List Held) :
    ReversePolish.total μ ((splitHeld goesOn held).1.map Token.operator) +
      heldTotal μ (splitHeld goesOn held).2 = heldTotal μ held := by
  induction held with
  | nil => simp [splitHeld, ReversePolish.total, heldTotal]
  | cons top held ih =>
    cases top with
    | group => simp [splitHeld, ReversePolish.total, heldTotal]
    | operator op =>
      unfold splitHeld
      split
      · simp only [List.map_cons, ReversePolish.total, totalToken, heldTotal, add_assoc, ih]
      · simp [ReversePolish.total, heldTotal]

/-- Sending operators on only moves them. -/
theorem total_release (goesOn : Operator → Bool) (yard : Yard) :
    (yard.release goesOn).total μ = yard.total μ := by
  rw [release_eq, total_putAll, total_reverse]
  simp only [total]
  rw [← heldTotal_splitHeld μ goesOn yard.held]
  abel

theorem total_takeOperator (yard : Yard) (op : Operator) :
    (yard.takeOperator op).total μ = yard.total μ + μ (.operator op) := by
  rw [takeOperator, total_hold, total_release]

theorem total_applyCoefficient (yard : Yard) :
    yard.applyCoefficient.total μ = yard.total μ := by
  obtain ⟨output, calls, held, outer, coefficient, expects⟩ := yard
  cases coefficient with
  | false => rfl
  | true =>
    simp only [applyCoefficient, ↓reduceIte, total_hold]
    simp [total]

/-- What a number brings in that is still read: its digit, the space at its end, and the
multiplication it stands for. -/
def numberIntake (token : Token) (following : List Token) : M :=
  μ token + (if following.head?.any Token.isNumberPart then 0 else μ .space) +
    if following.head?.any Token.startsFactor then μ (.operator .mul) else 0

/-- What a `-` brings in where an operand has to come. -/
def signIntake (following : List Token) : M :=
  let next := following.find? fun token => !token.isSpace
  if next.any Token.isNumberPart then μ .negative
  else if next.any Token.startsFactor then
    μ .negative + μ (.digit ⟨1, one_lt_ten⟩) + μ .space + μ (.operator .mul)
  else μ (.operator .sub)

/-- What a token brings into the output, at once or later. -/
def intake (expects : Bool) (following : List Token) : Token → M
  | .digit d => numberIntake μ (.digit d) following
  | .point => numberIntake μ .point following
  | .operator op =>
    if op = .sub ∧ expects then signIntake μ following else μ (.operator op)
  | .fn f _ => μ (.fn f [])
  | .space | .openGroup | .closeGroup | .openCall | .closeCall => 0
  | token => μ token

theorem total_takeNumberPart {token : Token} (htoken : totalToken μ token = μ token) {yard : Yard}
    (h : yard.coefficient = false) (following : List Token) :
    (yard.takeNumberPart token following).total μ =
      yard.total μ + numberIntake μ token following := by
  have hput : (({ yard with
      coefficient := yard.coefficient || following.head?.any Token.startsFactor }).put
        token).total μ =
      yard.total μ + μ token +
        if following.head?.any Token.startsFactor then μ (.operator .mul) else 0 := by
    rw [total_put, htoken, h, Bool.false_or]
    simp only [total, h]
    simp only [Bool.false_eq_true, ↓reduceIte, add_zero]
    abel
  unfold takeNumberPart numberIntake
  dsimp only
  split
  · rw [hput]
    abel
  · rw [total_put, hput, show totalToken μ .space = μ .space from rfl]
    abel

theorem total_takeSign (yard : Yard) (following : List Token) :
    (yard.takeSign following).total μ = yard.total μ + signIntake μ following := by
  unfold takeSign signIntake
  dsimp only
  split
  · rw [total_put]
    rfl
  · split
    · simp only [total_hold, total_put, totalToken]
      abel
    · exact total_takeOperator μ yard .sub

theorem total_closeGroup {yard closed : Yard} (h : yard.closeGroup = .ok closed) :
    closed.total μ = yard.total μ := by
  obtain ⟨held, hheld, rfl⟩ := closeGroup_eq_ok_iff.mp h
  rw [← total_release μ (fun _ => true) yard, ← releaseAll]
  simp only [total, hheld, heldTotal]

theorem total_closeCall {yard closed : Yard} (h : yard.closeCall = .ok closed) :
    closed.total μ = yard.total μ := by
  obtain ⟨held, outer, f, arg, calls, hheld, houter, hcalls, rfl⟩ := closeCall_eq_ok_iff.mp h
  rw [← total_release μ (fun _ => true) yard, ← releaseAll, total_put, totalToken, total_reverse]
  simp only [total, hheld, houter, hcalls, heldTotal, List.map_cons, List.sum_cons, zero_add]
  abel

/-- A step brings in what its token brings in, and loses nothing. -/
theorem total_step {yard after : Yard} {token : Token} {following : List Token}
    (h : yard.step token following = .ok after)
    (hbefore : yard.coefficient → token.startsFactor) :
    after.total μ = yard.total μ + intake μ yard.expectsOperand following token := by
  rcases step_eq_ok_iff.mp h with ⟨rfl, rfl⟩ | ⟨-, next, hnext, rfl⟩
  · exact (add_zero _).symm
  · change next.total μ = _
    have hflag : token.startsFactor = false → yard.coefficient = false :=
      coefficient_eq_false hbefore
    cases token with
    | digit d =>
      cases hnext
      exact total_takeNumberPart μ rfl (hflag rfl) following
    | point =>
      cases hnext
      exact total_takeNumberPart μ rfl (hflag rfl) following
    | negative =>
      cases hnext
      exact total_put μ yard _
    | literal n =>
      cases hnext
      exact total_put μ yard _
    | constant c =>
      cases hnext
      rw [total_put, total_applyCoefficient]
      rfl
    | var =>
      cases hnext
      rw [total_put, total_applyCoefficient]
      rfl
    | operator op =>
      cases hnext
      unfold intake
      dsimp only
      split
      · exact total_takeSign μ yard following
      · exact total_takeOperator μ yard op
    | fn f arg =>
      cases hnext
      rw [← total_applyCoefficient μ yard]
      simp only [beginCall, total, intake, List.map_cons, List.sum_cons, ReversePolish.total]
      abel
    | space =>
      cases hnext
      exact (add_zero _).symm
    | openGroup =>
      cases hnext
      rw [← total_applyCoefficient μ yard]
      exact (add_zero _).symm
    | openCall =>
      cases hnext
      simp only [openScope, total, intake, heldTotal, List.map_cons, List.sum_cons]
      abel
    | closeGroup => rw [total_closeGroup μ hnext, intake, add_zero]
    | closeCall => rw [total_closeCall μ hnext, intake, add_zero]

/-- What a list of tokens brings in behind a token that awaits an operand or not. -/
def intakeAll (expects : Bool) : List Token → M
  | [] => 0
  | token :: following =>
    intake μ expects following token +
      intakeAll (if token.isSpace then expects else token.awaitsOperand) following

theorem total_run {tokens : List Token} {yard after : Yard} (h : yard.run tokens = .ok after)
    (hbefore : yard.coefficient → tokens.head?.any Token.startsFactor) :
    after.total μ = yard.total μ + intakeAll μ yard.expectsOperand tokens := by
  induction tokens generalizing yard with
  | nil =>
    cases h
    exact (add_zero _).symm
  | cons token following ih =>
    rw [run] at h
    split at h
    · rename_i next hstep
      have hflag : yard.coefficient → token.startsFactor := by simpa using hbefore
      rw [ih h (coefficient_step hstep hflag), total_step μ hstep hflag, expectsOperand_step hstep,
        intakeAll, add_assoc]
    · cases h

end Yard

/-- Reordering puts out exactly what the tokens bring in. -/
theorem total_ofInfix {tokens out : List Token} (h : ofInfix tokens = .ok out) :
    total μ out = Yard.intakeAll μ true tokens := by
  obtain ⟨yard, hrun, hresult⟩ := ofInfix_eq_ok_iff.mp h
  obtain ⟨hheld, houter, hcalls, rfl⟩ := Yard.result_eq_ok_iff.mp hresult
  have hyard : yard.releaseAll.total μ = total μ yard.releaseAll.output := by
    simp [Yard.total, hheld, houter, hcalls, heldTotal,
      Yard.coefficient_run hrun (by simp [Yard.start])]
  rw [total_reverse, ← hyard, Yard.releaseAll, Yard.total_release,
    Yard.total_run μ hrun (by simp [Yard.start])]
  simp [Yard.total, Yard.start, total, heldTotal]

end Total
end Calculator.ReversePolish
