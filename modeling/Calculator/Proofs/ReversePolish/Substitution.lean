import Calculator.Proofs.ReversePolish.Conservation
import Calculator.Proofs.ReversePolish.Scopes

/-!
# Putting a formula in the place of the variable

A formula in brackets may stand where the variable stands: `replaceVar` puts it
there in infix order, and `fill` puts its reverse Polish order in the place of the
variable of the output, at any depth.

* A state with its outputs filled makes the same steps as before, but for the
  variable (`Yard.fillVar_step`).  What a step sees ahead is the same, too, since an
  operand in brackets begins as the variable does for all that a step looks for
  (`Yard.sameAhead_replaceVar`).
* So a run with an operand in the place of the variable is the filled run with the
  variable (`Yard.run_replaceVar`, `ofInfix_replaceVar`).
* The output has the variable as often as the input (`varCount_ofInfix`).

`ofInfix_bracketed` puts this together for one bracket with any tokens in front of it
and behind it.  Neither side of the bracket sees the other.
-/

namespace Calculator.ReversePolish

mutual

/-- A token with `content` in the place of the variable, at any depth. -/
def fillToken (content : List Token) : Token → List Token
  | .var => content
  | .fn f arg => [.fn f (fill content arg)]
  | token => [token]

/-- A list in reverse Polish order with `content` in the place of the variable,
also in the arguments of functions. -/
def fill (content : List Token) : List Token → List Token
  | [] => []
  | token :: tokens => fillToken content token ++ fill content tokens

end

/-- A list in infix order with `operand` in the place of the variable.  The argument
that a function token may carry is none of the list's own. -/
def replaceVar (operand : List Token) : List Token → List Token
  | [] => []
  | .var :: tokens => operand ++ replaceVar operand tokens
  | token :: tokens => token :: replaceVar operand tokens

variable {content operand : List Token}

/-! ## Filling and replacing -/

@[simp] theorem fill_append (content tokens more : List Token) :
    fill content (tokens ++ more) = fill content tokens ++ fill content more := by
  induction tokens with
  | nil => rfl
  | cons token tokens ih => simp only [List.cons_append, fill, ih, List.append_assoc]

theorem fill_singleton (content : List Token) (token : Token) :
    fill content [token] = fillToken content token := by
  simp [fill]

theorem fill_operators (content : List Token) (ops : List Operator) :
    fill content (ops.map Token.operator) = ops.map Token.operator := by
  induction ops with
  | nil => rfl
  | cons op ops ih => simpa [fill, fillToken] using ih

theorem replaceVar_cons_of_ne {token : Token} (h : token ≠ .var) (operand tokens : List Token) :
    replaceVar operand (token :: tokens) = token :: replaceVar operand tokens := by
  cases token <;> first | rfl | exact absurd rfl h

theorem replaceVar_append (operand tokens more : List Token) :
    replaceVar operand (tokens ++ more) = replaceVar operand tokens ++ replaceVar operand more := by
  induction tokens with
  | nil => rfl
  | cons token tokens ih => cases token <;> simp [replaceVar, ih]

theorem replaceVar_of_not_mem {tokens : List Token} (h : Token.var ∉ tokens) :
    replaceVar operand tokens = tokens := by
  induction tokens with
  | nil => rfl
  | cons token tokens ih =>
    have htail := ih fun hmem => h (List.mem_cons_of_mem _ hmem)
    cases token <;> simp_all [replaceVar]

namespace Yard

/-! ## Steps of a filled state -/

/-- The output `tokens`, latest first, with `content` in the place of the variable. -/
def fillLatest (content tokens : List Token) : List Token := (fill content tokens.reverse).reverse

@[simp] theorem fillLatest_nil (content : List Token) : fillLatest content [] = [] := rfl

theorem fillLatest_append (content tokens more : List Token) :
    fillLatest content (tokens ++ more) = fillLatest content tokens ++ fillLatest content more := by
  simp [fillLatest]

/-- The state with `content` in the place of the variable in all outputs. -/
def fillVar (content : List Token) (yard : Yard) : Yard :=
  { yard with
    output := fillLatest content yard.output
    calls := yard.calls.map fun (f, arg) => (f, fillLatest content arg) }

theorem fillVar_putAll (content : List Token) (yard : Yard) (tokens : List Token) :
    (yard.putAll tokens).fillVar content =
      (yard.fillVar content).putAll (fillLatest content tokens) := by
  obtain ⟨output, calls, held, outer, coefficient, expects⟩ := yard
  cases calls <;> simp [putAll, fillVar, fillLatest_append]

theorem fillVar_put {token filled : Token} (h : fillToken content token = [filled])
    (yard : Yard) : (yard.put token).fillVar content = (yard.fillVar content).put filled := by
  have hfilled : fillLatest content [token] = [filled] := by
    simp [fillLatest, fill_singleton, h]
  have hall := fillVar_putAll content yard [token]
  rw [hfilled, putAll_cons, putAll_cons, putAll_nil, putAll_nil] at hall
  exact hall

theorem fillVar_hold (content : List Token) (yard : Yard) (op : Operator) :
    (yard.hold op).fillVar content = (yard.fillVar content).hold op := rfl

/-- A release sends no variable on. -/
theorem fillVar_release (content : List Token) (goesOn : Operator → Bool) (yard : Yard) :
    (yard.release goesOn).fillVar content = (yard.fillVar content).release goesOn := by
  rw [release_eq, release_eq, fillVar_putAll, fillLatest, List.reverse_reverse, fill_operators]
  rfl

theorem fillVar_takeOperator (content : List Token) (yard : Yard) (op : Operator) :
    (yard.takeOperator op).fillVar content = (yard.fillVar content).takeOperator op := by
  rw [takeOperator, fillVar_hold, fillVar_release]
  rfl

theorem fillVar_applyCoefficient (content : List Token) (yard : Yard) :
    yard.applyCoefficient.fillVar content = (yard.fillVar content).applyCoefficient := by
  have hflag : (yard.fillVar content).coefficient = yard.coefficient := rfl
  unfold applyCoefficient
  rw [hflag]
  split <;> rfl

theorem fillVar_takeNumberPart {token : Token} (h : fillToken content token = [token])
    (yard : Yard) (following : List Token) :
    (yard.takeNumberPart token following).fillVar content =
      (yard.fillVar content).takeNumberPart token following := by
  unfold takeNumberPart
  dsimp only
  split
  · rw [fillVar_put h]
    rfl
  · rw [fillVar_put rfl, fillVar_put h]
    rfl

theorem fillVar_takeSign (content : List Token) (yard : Yard) (following : List Token) :
    (yard.takeSign following).fillVar content = (yard.fillVar content).takeSign following := by
  unfold takeSign
  dsimp only
  split
  · rw [fillVar_put rfl]
  · split
    · rw [fillVar_hold, fillVar_put rfl, fillVar_put rfl, fillVar_put rfl]
    · exact fillVar_takeOperator content yard .sub

theorem fillVar_closeGroup (content : List Token) (yard : Yard) :
    (yard.fillVar content).closeGroup = yard.closeGroup.map (fillVar content) := by
  unfold closeGroup
  dsimp only
  rw [releaseAll, ← fillVar_release, ← releaseAll]
  have hheld : (yard.releaseAll.fillVar content).held = yard.releaseAll.held := rfl
  rw [hheld]
  split <;> rfl

/-- The argument of a closed function is filled with it. -/
theorem fillVar_closeCall (content : List Token) (yard : Yard) :
    (yard.fillVar content).closeCall = yard.closeCall.map (fillVar content) := by
  unfold closeCall
  dsimp only
  rw [releaseAll, ← fillVar_release, ← releaseAll]
  generalize yard.releaseAll = yard
  obtain ⟨output, calls, held, outer, coefficient, expects⟩ := yard
  cases held with
  | cons top held => rfl
  | nil =>
    cases outer with
    | nil => rfl
    | cons next outer =>
      cases calls with
      | nil => rfl
      | cons call calls =>
        obtain ⟨f, arg⟩ := call
        have hfilled : fillToken content (.fn f arg.reverse) =
            [.fn f (fillLatest content arg).reverse] := by
          simp [fillToken, fillLatest]
        exact congrArg Except.ok
          (fillVar_put hfilled ⟨output, calls, next, outer, coefficient, expects⟩).symm

theorem fillVar_result (content : List Token) (yard : Yard) :
    (yard.fillVar content).result = yard.result.map (fill content) := by
  unfold result
  dsimp only
  rw [releaseAll, ← fillVar_release, ← releaseAll]
  generalize yard.releaseAll = yard
  obtain ⟨output, calls, held, outer, coefficient, expects⟩ := yard
  cases held with
  | cons top held => rfl
  | nil =>
    cases outer with
    | cons next outer => rfl
    | nil =>
      cases calls with
      | cons call calls => rfl
      | nil => exact congrArg Except.ok (by simp [fillVar, fillLatest])

/-- Every step but that of the variable is the same step once `content` stands in its place. -/
theorem fillVar_step {token : Token} (h : token ≠ .var) (content : List Token) (yard : Yard)
    (following : List Token) :
    (yard.fillVar content).step token following =
      (yard.step token following).map (fillVar content) := by
  have htake : (yard.fillVar content).take following token =
      (yard.take following token).map (fillVar content) := by
    cases token with
    | var => exact absurd rfl h
    | digit d => exact congrArg Except.ok (fillVar_takeNumberPart rfl yard following).symm
    | point => exact congrArg Except.ok (fillVar_takeNumberPart rfl yard following).symm
    | negative => exact congrArg Except.ok (fillVar_put rfl yard).symm
    | literal n => exact congrArg Except.ok (fillVar_put rfl yard).symm
    | constant c =>
      simp only [take, ← fillVar_applyCoefficient, Except.map]
      rw [fillVar_put rfl]
    | operator op =>
      have hexpects : (yard.fillVar content).expectsOperand = yard.expectsOperand := rfl
      simp only [take, hexpects, Except.map]
      split
      · rw [fillVar_takeSign]
      · rw [fillVar_takeOperator]
    | fn f arg =>
      simp only [take, ← fillVar_applyCoefficient]
      rfl
    | space => rfl
    | openGroup =>
      simp only [take, ← fillVar_applyCoefficient]
      rfl
    | closeGroup => exact fillVar_closeGroup content yard
    | openCall => rfl
    | closeCall => exact fillVar_closeCall content yard
  unfold step
  split
  · rfl
  · rw [htake]
    cases yard.take following token <;> rfl

/-! ## Operands in the place of the variable -/

/-- Whether `operand` is taken in as a whole, as an operand that gives `content`. -/
structure IsOperand (operand content : List Token) : Prop where
  startsFactor : operand.head?.any Token.startsFactor
  run_append : ∀ (yard : Yard) (rest : List Token),
    yard.run (operand ++ rest) = (yard.takeOperand content).run rest

/-- A formula in parentheses is an operand. -/
theorem isOperand_group {body out : List Token} (h : ofInfix body = .ok out) :
    IsOperand (.openGroup :: body ++ [.closeGroup]) out where
  startsFactor := rfl
  run_append yard rest := by
    rw [List.append_assoc]
    exact run_group h yard rest

/-- A function of a formula is an operand. -/
theorem isOperand_call {body out : List Token} (h : ofInfix body = .ok out) (f : Fn)
    (arg : List Token) :
    IsOperand (.fn f arg :: .openCall :: body ++ [.closeCall]) [.fn f out] where
  startsFactor := rfl
  run_append yard rest := by
    rw [List.append_assoc]
    exact run_call h f arg yard rest

/-- The variable is an operand that gives itself. -/
theorem step_var (yard : Yard) (following : List Token) :
    yard.step .var following = .ok (yard.takeOperand [.var]) := by
  obtain ⟨output, calls, held, outer, coefficient, expects⟩ := yard
  cases coefficient <;> cases calls <;> rfl

/-- A constant is an operand that gives itself. -/
theorem step_constant (yard : Yard) (c : Constant) (following : List Token) :
    yard.step (.constant c) following = .ok (yard.takeOperand [.constant c]) := by
  obtain ⟨output, calls, held, outer, coefficient, expects⟩ := yard
  cases coefficient <;> cases calls <;> rfl

theorem fillVar_takeOperand (content : List Token) (yard : Yard) (tokens : List Token) :
    (yard.takeOperand tokens).fillVar content =
      (yard.fillVar content).takeOperand (fill content tokens) := by
  have hall := fillVar_putAll content yard.applyCoefficient tokens.reverse
  rw [fillVar_applyCoefficient, fillLatest, List.reverse_reverse] at hall
  unfold takeOperand
  rw [← hall]
  rfl

/-- An operand in the place of the variable is not seen ahead. -/
theorem sameAhead_replaceVar {operand : List Token}
    (h : operand.head?.any Token.startsFactor) (following : List Token) :
    SameAhead (replaceVar operand following) following := by
  obtain ⟨first, more, rfl, hfirst⟩ :
      ∃ first more, operand = first :: more ∧ first.startsFactor := by
    cases operand with
    | nil => cases h
    | cons first more => exact ⟨first, more, rfl, h⟩
  have hnumber : first.isNumberPart = false := by
    cases first <;> first | rfl | cases hfirst
  have hspace : first.isSpace = false := by
    cases first <;> first | rfl | cases hfirst
  induction following with
  | nil => exact ⟨rfl, rfl, rfl, rfl⟩
  | cons token following ih =>
    cases token with
    | var =>
      have hfind : (replaceVar (first :: more) (.var :: following)).find? (!Token.isSpace ·) =
          some first := by
        rw [replaceVar, List.cons_append, List.find?_cons_of_pos (by simp [hspace])]
      constructor
      · exact hfirst
      · exact hnumber
      · rw [hfind]
        exact hnumber
      · rw [hfind]
        exact hfirst
    | space => exact ⟨rfl, rfl, ih.signedNumber, ih.signedFactor⟩
    | _ => exact ⟨rfl, rfl, rfl, rfl⟩

/-- A run with an operand in the place of the variable is the filled run. -/
theorem run_replaceVar {operand content : List Token} (h : IsOperand operand content)
    (tokens : List Token) (yard : Yard) :
    (yard.fillVar content).run (replaceVar operand tokens) =
      (yard.run tokens).map (fillVar content) := by
  induction tokens generalizing yard with
  | nil => rfl
  | cons token tokens ih =>
    by_cases hvar : token = .var
    · subst hvar
      rw [run_cons_of_step (step_var yard tokens), ← ih, fillVar_takeOperand, replaceVar,
        h.run_append, fill_singleton, fillToken]
    · rw [replaceVar_cons_of_ne hvar, run, run,
        step_congr (sameAhead_replaceVar h.startsFactor tokens), fillVar_step hvar]
      cases yard.step token tokens with
      | error e => rfl
      | ok next => exact ih next

end Yard

/-- An operand in the place of the variable has its reverse Polish order in the place of the
variable's. -/
theorem ofInfix_replaceVar {operand content : List Token} (h : Yard.IsOperand operand content)
    (tokens : List Token) :
    ofInfix (replaceVar operand tokens) = (ofInfix tokens).map (fill content) := by
  have hrun := Yard.run_replaceVar h tokens Yard.start
  rw [show Yard.start.fillVar content = Yard.start from rfl] at hrun
  unfold ofInfix
  rw [hrun]
  cases Yard.start.run tokens with
  | error e => rfl
  | ok yard => exact Yard.fillVar_result content yard

/-! ## How often the variable stands there -/

/-- Whether a token is the variable. -/
def isVar : Token → Bool
  | .var => true
  | _ => false

/-- The number of variables in a list, those in arguments included. -/
def varCount (tokens : List Token) : Nat := total (fun token => (isVar token).toNat) tokens

theorem intakeAll_isVar (expects : Bool) (tokens : List Token) :
    Yard.intakeAll (fun token => (isVar token).toNat) expects tokens = tokens.countP isVar := by
  induction tokens generalizing expects with
  | nil => rfl
  | cons token following ih =>
    have hintake : Yard.intake (fun token => (isVar token).toNat) expects following token =
        (isVar token).toNat := by
      cases token with
      | operator op => simp [Yard.intake, Yard.signIntake, isVar]
      | _ => simp [Yard.intake, Yard.numberIntake, isVar]
    rw [Yard.intakeAll, hintake, ih, List.countP_cons]
    cases isVar token <;> simp [Nat.add_comm]

/-- The output has the variable as often as the input. -/
theorem varCount_ofInfix {tokens out : List Token} (h : ofInfix tokens = .ok out) :
    varCount out = tokens.countP isVar := by
  rw [varCount, total_ofInfix _ h, intakeAll_isVar]

theorem countP_isVar_of_not_mem {tokens : List Token} (h : Token.var ∉ tokens) :
    tokens.countP isVar = 0 := by
  rw [List.countP_eq_zero]
  intro token hmem hvar
  cases token <;> first | exact h hmem | cases hvar

/-! ## A formula in brackets -/

/-- A formula in brackets takes the place of the variable, whatever stands around it:
with a function in front, the place of the variable goes to the function with the
reverse Polish order of the formula as its argument, and without one to that order by
itself.  If reordering fails, it fails alike with the variable. -/
theorem ofInfix_bracketed {pre body post b : List Token} (hpre : Token.var ∉ pre)
    (hpost : Token.var ∉ post) (hbody : ofInfix body = .ok b) (f : Fn) (arg : List Token) :
    ofInfix (pre ++ [.fn f arg, .openCall] ++ body ++ [.closeCall] ++ post) =
        (ofInfix (pre ++ [.var] ++ post)).map (fill [.fn f b]) ∧
      ofInfix (pre ++ [.openGroup] ++ body ++ [.closeGroup] ++ post) =
        (ofInfix (pre ++ [.var] ++ post)).map (fill b) ∧
      ∀ out, ofInfix (pre ++ [.var] ++ post) = .ok out → varCount out = 1 := by
  have hreplaced : ∀ operand, replaceVar operand (pre ++ [.var] ++ post) =
      pre ++ operand ++ post := by
    intro operand
    rw [replaceVar_append, replaceVar_append, replaceVar_of_not_mem hpre,
      replaceVar_of_not_mem hpost, replaceVar, replaceVar, List.append_nil]
  refine ⟨?_, ?_, ?_⟩
  · rw [← ofInfix_replaceVar (Yard.isOperand_call hbody f arg), hreplaced]
    simp only [List.append_assoc, List.cons_append, List.nil_append]
  · rw [← ofInfix_replaceVar (Yard.isOperand_group hbody), hreplaced]
    simp only [List.append_assoc, List.cons_append, List.nil_append]
  · intro out hout
    rw [varCount_ofInfix hout, List.countP_append, List.countP_append,
      countP_isVar_of_not_mem hpre, countP_isVar_of_not_mem hpost]
    rfl

/-- In front of the bracket a sign and a number that multiplies it, inside it another
sign, and behind it an operator that binds more tightly than both. -/
theorem ofInfix_bracketed_sign_coefficient :
    let pre : List Token := [.operator .sub, .space, .digit 2]
    let body : List Token := [.operator .sub, .var]
    let post : List Token := [.operator .pow, .digit 3]
    let b : List Token := [.negative, .digit 1, .space, .var, .operator .mul]
    (Token.var ∉ pre ∧ Token.var ∉ post ∧ ofInfix body = .ok b) ∧
      ofInfix (pre ++ [.fn .sin [], .openCall] ++ body ++ [.closeCall] ++ post) =
        .ok [.negative, .digit 2, .space, .fn .sin b, .digit 3, .space,
          .operator .pow, .operator .mul] ∧
      ofInfix (pre ++ [.openGroup] ++ body ++ [.closeGroup] ++ post) =
        .ok ([.negative, .digit 2, .space] ++ b ++
          [.digit 3, .space, .operator .pow, .operator .mul]) := by
  intro pre body post b
  have hpre : Token.var ∉ pre := by simp [pre]
  have hpost : Token.var ∉ post := by simp [post]
  have hbody : ofInfix body = .ok b := by cbv
  obtain ⟨hcall, hgroup, -⟩ := ofInfix_bracketed hpre hpost hbody .sin []
  refine ⟨⟨hpre, hpost, hbody⟩, ?_, ?_⟩
  · rw [hcall]
    cbv
  · rw [hgroup]
    cbv

end Calculator.ReversePolish
