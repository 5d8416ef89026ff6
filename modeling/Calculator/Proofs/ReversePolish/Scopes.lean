import Calculator.Proofs.ReversePolish.Steps

/-!
# Scopes are independent

`base.within inner` is the state `inner` inside the innermost argument and group of
`base`: the output of `inner` follows that of `base`, and its stacks stand on top.

* Every step commutes with `within`, as long as no operator is on top of the stack of
  `base` (`step_within`).  A closing bracket behind the tokens of `inner` does not
  change what they see ahead (`sameAhead_append_close`).  So a run of `inner` is a run
  inside `base` (`run_within`).
* A formula in brackets therefore comes to one operand.  `run_group` and `run_call`
  give the state behind it, whatever the state before it and whatever follows.
-/

namespace Calculator

/-- Whether the token closes a group or an argument. -/
def Token.isClose : Token → Bool
  | closeGroup | closeCall => true
  | _ => false

namespace ReversePolish.Yard

/-! ## A scope on top of another -/

/-- Puts the stack of a scope at the bottom of the innermost stacks. -/
def stackOnto (below : List Held) : List Held → List (List Held) → List Held × List (List Held)
  | held, [] => (held ++ below, [])
  | held, next :: outer =>
    let (next, outer) := stackOnto below next outer
    (held, next :: outer)

/-- The state `inner` inside the innermost scope and argument of `base`. -/
def within (base inner : Yard) : Yard :=
  let below := base.putAll inner.output
  let (held, outer) := stackOnto base.held inner.held inner.outer
  { output := below.output
    calls := inner.calls ++ below.calls
    held := held
    outer := outer ++ base.outer
    coefficient := inner.coefficient
    expectsOperand := inner.expectsOperand }

variable {base : Yard}

theorem put_within (base inner : Yard) (token : Token) :
    (base.within inner).put token = base.within (inner.put token) := by
  obtain ⟨output, calls, held, outer, coefficient, expects⟩ := inner
  cases calls with
  | nil => cases hcalls : base.calls <;> simp [within, put, putAll, hcalls]
  | cons call calls => rfl

theorem putAll_within (base inner : Yard) (tokens : List Token) :
    (base.within inner).putAll tokens = base.within (inner.putAll tokens) := by
  induction tokens with
  | nil => rw [putAll_nil, putAll_nil]
  | cons token tokens ih => rw [putAll_cons, putAll_cons, ih, put_within]

theorem hold_within (base inner : Yard) (op : Operator) :
    (base.within inner).hold op = base.within (inner.hold op) := by
  obtain ⟨output, calls, held, outer, coefficient, expects⟩ := inner
  cases outer <;> rfl

theorem applyCoefficient_within (base inner : Yard) :
    (base.within inner).applyCoefficient = base.within inner.applyCoefficient := by
  have hflag : (base.within inner).coefficient = inner.coefficient := rfl
  unfold applyCoefficient
  rw [hflag]
  split
  · exact hold_within base { inner with coefficient := false } .mul
  · rfl

/-- Whether the top of a stack is no operator. -/
def noOperatorOnTop : List Held → Bool
  | .operator _ :: _ => false
  | _ => true

/-- What goes on from a stack does not depend on a stack below that begins with a group. -/
theorem splitHeld_append (goesOn : Operator → Bool) (held : List Held) {below : List Held}
    (h : noOperatorOnTop below) :
    splitHeld goesOn (held ++ below) =
      ((splitHeld goesOn held).1, (splitHeld goesOn held).2 ++ below) := by
  induction held with
  | nil =>
    cases below with
    | nil => rfl
    | cons top below =>
      cases top with
      | operator op => cases h
      | group => rfl
  | cons top held ih =>
    cases top with
    | group => rfl
    | operator op =>
      simp only [List.cons_append, splitHeld]
      split
      · rw [ih]
      · rfl

theorem release_within (hbase : noOperatorOnTop base.held) (goesOn : Operator → Bool)
    (inner : Yard) :
    (base.within inner).release goesOn = base.within (inner.release goesOn) := by
  rw [release_eq, release_eq, ← putAll_within]
  obtain ⟨output, calls, held, outer, coefficient, expects⟩ := inner
  cases outer with
  | nil =>
    simp only [within, stackOnto]
    rw [splitHeld_append goesOn held hbase]
  | cons next outer => rfl

theorem takeOperator_within (hbase : noOperatorOnTop base.held) (inner : Yard) (op : Operator) :
    (base.within inner).takeOperator op = base.within (inner.takeOperator op) := by
  rw [takeOperator, release_within hbase, hold_within]
  rfl

theorem takeNumberPart_within (base inner : Yard) (token : Token) (following : List Token) :
    (base.within inner).takeNumberPart token following =
      base.within (inner.takeNumberPart token following) := by
  have hput := put_within base
    { inner with coefficient := inner.coefficient || following.head?.any Token.startsFactor } token
  unfold takeNumberPart
  dsimp only
  split
  · exact hput
  · rw [← put_within, ← hput]
    rfl

theorem takeSign_within (hbase : noOperatorOnTop base.held) (inner : Yard)
    (following : List Token) :
    (base.within inner).takeSign following = base.within (inner.takeSign following) := by
  unfold takeSign
  dsimp only
  split
  · exact put_within base inner .negative
  · split
    · rw [put_within, put_within, put_within, hold_within]
    · exact takeOperator_within hbase inner .sub

theorem openGroup_within (base inner : Yard) :
    (base.within inner).openGroup = base.within inner.openGroup := by
  obtain ⟨output, calls, held, outer, coefficient, expects⟩ := inner
  cases outer <;> rfl

theorem beginCall_within (base inner : Yard) (f : Fn) :
    (base.within inner).beginCall f = base.within (inner.beginCall f) := rfl

theorem openScope_within (base inner : Yard) :
    (base.within inner).openScope = base.within inner.openScope := by
  obtain ⟨output, calls, held, outer, coefficient, expects⟩ := inner
  cases outer <;> rfl

theorem closeGroup_within (hbase : noOperatorOnTop base.held) {inner closed : Yard}
    (h : inner.closeGroup = .ok closed) :
    (base.within inner).closeGroup = .ok (base.within closed) := by
  obtain ⟨held, hheld, rfl⟩ := closeGroup_eq_ok_iff.mp h
  rw [closeGroup_eq_ok_iff, releaseAll, release_within hbase, ← releaseAll]
  generalize inner.releaseAll = inner at hheld
  obtain ⟨output, calls, _, outer, coefficient, expects⟩ := inner
  cases hheld
  cases outer with
  | nil => exact ⟨held ++ base.held, rfl, rfl⟩
  | cons next outer => exact ⟨held, rfl, rfl⟩

theorem closeCall_within (hbase : noOperatorOnTop base.held) {inner closed : Yard}
    (h : inner.closeCall = .ok closed) :
    (base.within inner).closeCall = .ok (base.within closed) := by
  obtain ⟨held, outer, f, arg, calls, hheld, houter, hcalls, rfl⟩ := closeCall_eq_ok_iff.mp h
  rw [closeCall_eq_ok_iff, releaseAll, release_within hbase, ← releaseAll, ← put_within]
  generalize inner.releaseAll = inner at hheld houter hcalls
  obtain ⟨output, _, _, _, coefficient, expects⟩ := inner
  cases hheld
  cases houter
  cases hcalls
  cases outer with
  | nil => exact ⟨held ++ base.held, base.outer, f, arg, _, rfl, rfl, rfl, rfl⟩
  | cons next outer => exact ⟨held, _, f, arg, _, rfl, rfl, rfl, rfl⟩

/-- A step of a scope is the same step inside another one. -/
theorem step_within (hbase : noOperatorOnTop base.held) {inner after : Yard} {token : Token}
    {following : List Token} (h : inner.step token following = .ok after) :
    (base.within inner).step token following = .ok (base.within after) := by
  have htake : ∀ {yard : Yard}, inner.take following token = .ok yard →
      (base.within inner).take following token = .ok (base.within yard) := by
    intro yard h
    cases token with
    | digit d =>
      cases h
      exact congrArg _ (takeNumberPart_within base inner _ _)
    | point =>
      cases h
      exact congrArg _ (takeNumberPart_within base inner _ _)
    | negative =>
      cases h
      exact congrArg _ (put_within base inner _)
    | literal n =>
      cases h
      exact congrArg _ (put_within base inner _)
    | constant c =>
      cases h
      rw [← put_within, ← applyCoefficient_within]
      rfl
    | var =>
      cases h
      rw [← put_within, ← applyCoefficient_within]
      rfl
    | operator op =>
      cases h
      have hexpects : (base.within inner).expectsOperand = inner.expectsOperand := rfl
      simp only [take, hexpects]
      split
      · rw [takeSign_within hbase]
      · rw [takeOperator_within hbase]
    | fn f _ =>
      cases h
      rw [← beginCall_within, ← applyCoefficient_within]
      rfl
    | space =>
      cases h
      rfl
    | openGroup =>
      cases h
      rw [← openGroup_within, ← applyCoefficient_within]
      rfl
    | closeGroup => exact closeGroup_within hbase h
    | openCall =>
      cases h
      exact congrArg _ (openScope_within base inner)
    | closeCall => exact closeCall_within hbase h
  rcases step_eq_ok_iff.mp h with ⟨rfl, rfl⟩ | ⟨hspace, next, hnext, rfl⟩
  · rfl
  · exact step_eq_ok_iff.mpr (.inr ⟨hspace, base.within next, htake hnext, rfl⟩)

/-! ## A run inside another -/

/-- A closing bracket is no more to a step than the end of the tokens. -/
theorem sameAhead_append_close (following : List Token) {close : Token} (hclose : close.isClose)
    (rest : List Token) : SameAhead (following ++ close :: rest) following := by
  have hfind : ((following ++ close :: rest).find? fun token => !token.isSpace) =
      (following.find? fun token => !token.isSpace).or (some close) := by
    rw [List.find?_append]
    cases close <;> first | rfl | cases hclose
  have hhead : (following ++ close :: rest).head? = following.head?.or (some close) := by
    cases following <;> rfl
  have hfactor : close.startsFactor = false := by
    cases close <;> first | rfl | cases hclose
  have hnumber : close.isNumberPart = false := by
    cases close <;> first | rfl | cases hclose
  constructor
  · rw [hhead]
    cases following.head? <;> simp [hfactor]
  · rw [hhead]
    cases following.head? <;> simp [hnumber]
  · rw [hfind]
    cases following.find? fun token => !token.isSpace <;> simp [hnumber]
  · rw [hfind]
    cases following.find? fun token => !token.isSpace <;> simp [hfactor]

/-- A run of a scope is the same run inside another one, up to the bracket that closes it. -/
theorem run_within (hbase : noOperatorOnTop base.held) {close : Token} (hclose : close.isClose)
    {tokens : List Token} {inner after : Yard} (h : inner.run tokens = .ok after)
    (rest : List Token) :
    (base.within inner).run (tokens ++ close :: rest) =
      (base.within after).run (close :: rest) := by
  induction tokens generalizing inner with
  | nil =>
    cases h
    rfl
  | cons token tokens ih =>
    rw [run] at h
    split at h
    · rename_i next hstep
      rw [List.cons_append, run_cons_of_step]
      · exact ih h
      · rw [step_congr (sameAhead_append_close tokens hclose rest)]
        exact step_within hbase hstep
    · cases h

/-! ## A formula in brackets -/

/-- The state after an operand that gave `tokens`. -/
def takeOperand (yard : Yard) (tokens : List Token) : Yard :=
  { yard.applyCoefficient.putAll tokens.reverse with
    coefficient := false, expectsOperand := false }

/-- Before its first token, a scope leaves the output and the stacks below it alone. -/
theorem within_start {base : Yard} (h : base.coefficient = false) :
    base.within start = { base with expectsOperand := true } := by
  obtain ⟨output, calls, held, outer, coefficient, expects⟩ := base
  cases h
  cases calls <;> rfl

/-- Once everything is closed, only the output of a scope is left of it. -/
theorem within_closed (base : Yard) {inner : Yard} (hheld : inner.held = [])
    (houter : inner.outer = []) (hcalls : inner.calls = []) :
    base.within inner =
      { base.putAll inner.output with
        coefficient := inner.coefficient, expectsOperand := inner.expectsOperand } := by
  obtain ⟨output, _, _, _, coefficient, expects⟩ := inner
  cases hheld
  cases houter
  cases hcalls
  obtain ⟨output', calls', held', outer', coefficient', expects'⟩ := base
  cases calls' <;> rfl

/-- Closing a group adds the result of its scope to the output. -/
theorem closeGroup_of_result (yard : Yard) {inner : Yard} {out : List Token}
    (h : inner.result = .ok out) :
    (yard.openGroup.within inner).closeGroup =
      .ok { yard.putAll out.reverse with
        coefficient := inner.coefficient, expectsOperand := inner.releaseAll.expectsOperand } := by
  obtain ⟨hheld, houter, hcalls, rfl⟩ := result_eq_ok_iff.mp h
  have hreleased : (yard.openGroup.within inner).releaseAll =
      { yard.openGroup.putAll inner.releaseAll.output with
        coefficient := inner.coefficient, expectsOperand := inner.releaseAll.expectsOperand } := by
    rw [releaseAll, release_within rfl, ← releaseAll, within_closed _ hheld houter hcalls,
      coefficient_releaseAll]
  rw [closeGroup_eq_ok_iff, hreleased, List.reverse_reverse]
  obtain ⟨output, calls, held, outer, coefficient, expects⟩ := yard
  refine ⟨held, ?_, ?_⟩ <;> cases calls <;> rfl

/-- Closing an argument adds its function, with the result of its scope. -/
theorem closeCall_of_result (yard : Yard) (f : Fn) {inner : Yard} {out : List Token}
    (h : inner.result = .ok out) :
    ((yard.beginCall f).openScope.within inner).closeCall =
      .ok { yard.put (.fn f out) with
        coefficient := inner.coefficient, expectsOperand := inner.releaseAll.expectsOperand } := by
  obtain ⟨hheld, houter, hcalls, rfl⟩ := result_eq_ok_iff.mp h
  have hreleased : ((yard.beginCall f).openScope.within inner).releaseAll =
      { (yard.beginCall f).openScope.putAll inner.releaseAll.output with
        coefficient := inner.coefficient, expectsOperand := inner.releaseAll.expectsOperand } := by
    rw [releaseAll, release_within rfl, ← releaseAll, within_closed _ hheld houter hcalls,
      coefficient_releaseAll]
  rw [closeCall_eq_ok_iff, hreleased]
  refine ⟨yard.held, yard.outer, f, inner.releaseAll.output, yard.calls, rfl, rfl, ?_, ?_⟩
  · simp [putAll, openScope, beginCall]
  · obtain ⟨output, calls, held, outer, coefficient, expects⟩ := yard
    cases calls <;> rfl

/-- The operand that a formula is once it stands in brackets: the state behind it depends on
the formula only by what it gives in reverse Polish order. -/
theorem run_group {body out : List Token} (h : ofInfix body = .ok out) (yard : Yard)
    (rest : List Token) :
    yard.run (.openGroup :: body ++ .closeGroup :: rest) = (yard.takeOperand out).run rest := by
  obtain ⟨inner, hrun, hresult⟩ := ofInfix_eq_ok_iff.mp h
  have hflag : yard.applyCoefficient.openGroup.coefficient = false :=
    coefficient_applyCoefficient yard
  have hopen : yard.step .openGroup (body ++ .closeGroup :: rest) =
      .ok (yard.applyCoefficient.openGroup.within start) := by
    rw [within_start hflag]
    rfl
  have hclose : (yard.applyCoefficient.openGroup.within inner).step .closeGroup rest =
      .ok (yard.takeOperand out) := by
    refine step_eq_ok_iff.mpr (.inr ⟨rfl, _, closeGroup_of_result _ hresult, ?_⟩)
    rw [coefficient_run hrun (by simp [start])]
    rfl
  rw [List.cons_append, run_cons_of_step hopen, run_within rfl rfl hrun, run_cons_of_step hclose]

/-- A function with a formula as its argument is one operand, too. -/
theorem run_call {body out : List Token} (h : ofInfix body = .ok out) (f : Fn) (arg : List Token)
    (yard : Yard) (rest : List Token) :
    yard.run (.fn f arg :: .openCall :: body ++ .closeCall :: rest) =
      (yard.takeOperand [.fn f out]).run rest := by
  obtain ⟨inner, hrun, hresult⟩ := ofInfix_eq_ok_iff.mp h
  have hflag : (yard.applyCoefficient.beginCall f).openScope.coefficient = false :=
    coefficient_applyCoefficient yard
  have hname : yard.step (.fn f arg) (.openCall :: (body ++ .closeCall :: rest)) =
      .ok { yard.applyCoefficient.beginCall f with expectsOperand := false } := rfl
  have hopen : Yard.step { yard.applyCoefficient.beginCall f with expectsOperand := false }
      .openCall (body ++ .closeCall :: rest) =
      .ok ((yard.applyCoefficient.beginCall f).openScope.within start) := by
    rw [within_start hflag]
    rfl
  have hclose : ((yard.applyCoefficient.beginCall f).openScope.within inner).step .closeCall rest =
      .ok (yard.takeOperand [.fn f out]) := by
    refine step_eq_ok_iff.mpr (.inr ⟨rfl, _, closeCall_of_result _ f hresult, ?_⟩)
    rw [coefficient_run hrun (by simp [start])]
    rw [takeOperand, List.reverse_singleton, putAll_cons, putAll_nil]
    rfl
  rw [List.cons_append, List.cons_append, run_cons_of_step hname, run_cons_of_step hopen,
    run_within rfl rfl hrun, run_cons_of_step hclose]

end ReversePolish.Yard

end Calculator
