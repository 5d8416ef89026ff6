import Calculator.ReversePolish.Yard

/-!
# What one step of the yard does

The facts about single steps that every property of a whole run starts from.

* `putAll` collects the output of a release in one list, and `release_eq` states a
  release with it, without the fold.
* `step_eq_ok_iff`, `closeGroup_eq_ok_iff`, `closeCall_eq_ok_iff` and
  `result_eq_ok_iff` say what a step that succeeds has found and what it leaves.
* `SameAhead` is all that a step sees of the tokens behind it, see `step_congr`.
* `coefficient_step_eq`: a coefficient is set exactly between a number and the
  operand directly behind it.  So none is set at the end, see `coefficient_run`.
-/

namespace Calculator.ReversePolish

/-- The one of the `-1` that a sign stands for is a digit. -/
theorem one_lt_ten : 1 < 10 := by decide

namespace Yard

/-! ## Output -/

/-- Adds a list of tokens, latest first, to the output of the innermost open argument. -/
def putAll (yard : Yard) (tokens : List Token) : Yard :=
  match yard.calls with
  | [] => { yard with output := tokens ++ yard.output }
  | (f, arg) :: calls => { yard with calls := (f, tokens ++ arg) :: calls }

theorem putAll_nil (yard : Yard) : yard.putAll [] = yard := by
  unfold putAll
  split
  · rfl
  · rename_i h
    rw [List.nil_append, ← h]

theorem putAll_cons (yard : Yard) (token : Token) (tokens : List Token) :
    yard.putAll (token :: tokens) = (yard.putAll tokens).put token := by
  unfold putAll
  split <;> simp [put]
  rename_i h
  simp [h]

theorem foldl_put (yard : Yard) (ops : List Operator) :
    ops.foldl (fun yard op => yard.put (.operator op)) yard =
      yard.putAll (ops.map Token.operator).reverse := by
  induction ops generalizing yard with
  | nil => exact (putAll_nil yard).symm
  | cons op ops ih =>
    rw [List.foldl_cons, ih]
    simp only [putAll, put, List.map_cons, List.reverse_cons, List.append_assoc]
    cases yard.calls <;> simp

/-- A release moves the operators on top of the stack to the output in one go. -/
theorem release_eq (goesOn : Operator → Bool) (yard : Yard) :
    yard.release goesOn =
      { yard with held := (splitHeld goesOn yard.held).2 }.putAll
        ((splitHeld goesOn yard.held).1.map Token.operator).reverse := by
  exact foldl_put _ _

/-! ## Steps that succeed -/

/-- A group is closed only at its own beginning. -/
theorem closeGroup_eq_ok_iff {yard closed : Yard} :
    yard.closeGroup = .ok closed ↔
      ∃ held, yard.releaseAll.held = .group :: held ∧
        closed = { yard.releaseAll with held := held } := by
  unfold closeGroup
  dsimp only
  constructor
  · intro h
    split at h
    · rename_i held hheld
      cases h
      exact ⟨held, hheld, rfl⟩
    · cases h
  · intro h
    obtain ⟨held, hheld, rfl⟩ := h
    rw [hheld]

/-- An argument is closed only with nothing held in its scope. -/
theorem closeCall_eq_ok_iff {yard closed : Yard} :
    yard.closeCall = .ok closed ↔
      ∃ held outer f arg calls, yard.releaseAll.held = [] ∧
        yard.releaseAll.outer = held :: outer ∧ yard.releaseAll.calls = (f, arg) :: calls ∧
        closed = ({ yard.releaseAll with held, outer, calls }.put (.fn f arg.reverse)) := by
  unfold closeCall
  dsimp only
  constructor
  · intro h
    split at h
    · rename_i held outer f arg calls hheld houter hcalls
      cases h
      exact ⟨held, outer, f, arg, calls, hheld, houter, hcalls, rfl⟩
    · cases h
  · intro h
    obtain ⟨held, outer, f, arg, calls, hheld, houter, hcalls, rfl⟩ := h
    rw [hheld, houter, hcalls]

/-- White space changes nothing, and any other token is taken in. -/
theorem step_eq_ok_iff {yard after : Yard} {token : Token} {following : List Token} :
    yard.step token following = .ok after ↔
      token = .space ∧ after = yard ∨
      token.isSpace = false ∧ ∃ next, yard.take following token = .ok next ∧
        after = { next with expectsOperand := token.awaitsOperand } := by
  unfold step
  constructor
  · intro h
    split at h
    · rename_i hspace
      cases h
      cases token <;> first | exact .inl ⟨rfl, rfl⟩ | cases hspace
    · rename_i hspace
      split at h
      · rename_i next htake
        cases h
        exact .inr ⟨by simpa using hspace, next, htake, rfl⟩
      · cases h
  · intro h
    rcases h with ⟨rfl, rfl⟩ | ⟨hspace, next, htake, rfl⟩
    · rfl
    · rw [if_neg (by simp [hspace]), htake]

/-- Whether an operand has to come depends on the last token that is no white space. -/
theorem expectsOperand_step {yard after : Yard} {token : Token} {following : List Token}
    (h : yard.step token following = .ok after) :
    after.expectsOperand = if token.isSpace then yard.expectsOperand else token.awaitsOperand := by
  rcases step_eq_ok_iff.mp h with ⟨rfl, rfl⟩ | ⟨hspace, next, -, rfl⟩
  · rfl
  · rw [hspace]
    rfl

/-- A run goes on from the state behind its first token. -/
theorem run_cons_of_step {yard after : Yard} {token : Token} {following : List Token}
    (h : yard.step token following = .ok after) :
    yard.run (token :: following) = after.run following := by
  rw [run, h]

/-- There is a result only once every group and every argument is closed. -/
theorem result_eq_ok_iff {yard : Yard} {tokens : List Token} :
    yard.result = .ok tokens ↔
      yard.releaseAll.held = [] ∧ yard.releaseAll.outer = [] ∧ yard.releaseAll.calls = [] ∧
        tokens = yard.releaseAll.output.reverse := by
  unfold result
  dsimp only
  constructor
  · intro h
    split at h
    · rename_i hheld houter hcalls
      cases h
      exact ⟨hheld, houter, hcalls, rfl⟩
    · cases h
  · intro h
    obtain ⟨hheld, houter, hcalls, rfl⟩ := h
    rw [hheld, houter, hcalls]

theorem splitHeld_operators (ops : List Operator) :
    splitHeld (fun _ => true) (ops.map Held.operator) = (ops, []) := by
  induction ops with
  | nil => rfl
  | cons op ops ih => rw [List.map_cons, splitHeld, if_pos rfl, ih]

/-- With everything closed, the operators that are still held back go behind the output. -/
theorem result_of_operators {yard : Yard} (ops : List Operator)
    (hheld : yard.held = ops.map .operator) (houter : yard.outer = []) (hcalls : yard.calls = []) :
    yard.result = .ok (yard.output.reverse ++ ops.map Token.operator) := by
  have hreleased : yard.releaseAll =
      { yard with held := [], output := (ops.map Token.operator).reverse ++ yard.output } := by
    rw [releaseAll, release_eq, hheld, splitHeld_operators, putAll]
    dsimp only
    rw [hcalls]
  rw [result_eq_ok_iff, hreleased]
  refine ⟨rfl, houter, hcalls, ?_⟩
  rw [List.reverse_append, List.reverse_reverse]

end Yard

theorem ofInfix_eq_ok_iff {tokens out : List Token} :
    ofInfix tokens = .ok out ↔
      ∃ yard, Yard.start.run tokens = .ok yard ∧ yard.result = .ok out := by
  unfold ofInfix
  constructor
  · intro h
    split at h
    · rename_i yard hyard
      exact ⟨yard, hyard, h⟩
    · cases h
  · intro h
    obtain ⟨yard, hyard, hresult⟩ := h
    rw [hyard]
    exact hresult

namespace Yard

/-! ## What a step looks ahead for -/

/-- Two continuations that no step can tell apart. -/
structure SameAhead (following other : List Token) : Prop where
  factor : following.head?.any Token.startsFactor = other.head?.any Token.startsFactor
  number : following.head?.any Token.isNumberPart = other.head?.any Token.isNumberPart
  signedNumber :
    (following.find? fun token => !token.isSpace).any Token.isNumberPart =
      (other.find? fun token => !token.isSpace).any Token.isNumberPart
  signedFactor :
    (following.find? fun token => !token.isSpace).any Token.startsFactor =
      (other.find? fun token => !token.isSpace).any Token.startsFactor

/-- A step sees nothing of the tokens behind it but what `SameAhead` compares. -/
theorem step_congr {following other : List Token} (h : SameAhead following other)
    (yard : Yard) (token : Token) : yard.step token following = yard.step token other := by
  have hnumber : ∀ token, yard.takeNumberPart token following =
      yard.takeNumberPart token other := by
    intro token
    simp only [takeNumberPart, h.factor, h.number]
  have hsign : yard.takeSign following = yard.takeSign other := by
    simp only [takeSign, h.signedNumber, h.signedFactor]
  cases token <;> simp only [step, take, hnumber, hsign]

/-! ## The coefficient -/

@[simp] theorem coefficient_putAll (yard : Yard) (tokens : List Token) :
    (yard.putAll tokens).coefficient = yard.coefficient := by
  unfold putAll
  split <;> rfl

@[simp] theorem coefficient_put (yard : Yard) (token : Token) :
    (yard.put token).coefficient = yard.coefficient := by
  unfold put
  split <;> rfl

@[simp] theorem coefficient_hold (yard : Yard) (op : Operator) :
    (yard.hold op).coefficient = yard.coefficient := rfl

@[simp] theorem coefficient_release (yard : Yard) (goesOn : Operator → Bool) :
    (yard.release goesOn).coefficient = yard.coefficient := by
  rw [release_eq, coefficient_putAll]

@[simp] theorem coefficient_releaseAll (yard : Yard) :
    yard.releaseAll.coefficient = yard.coefficient := coefficient_release yard _

@[simp] theorem coefficient_takeOperator (yard : Yard) (op : Operator) :
    (yard.takeOperator op).coefficient = yard.coefficient := by
  simp [takeOperator]

@[simp] theorem coefficient_applyCoefficient (yard : Yard) :
    yard.applyCoefficient.coefficient = false := by
  unfold applyCoefficient
  split
  · rfl
  · rename_i h
    simpa using h

@[simp] theorem coefficient_takeNumberPart (yard : Yard) (token : Token)
    (following : List Token) :
    (yard.takeNumberPart token following).coefficient =
      (yard.coefficient || following.head?.any Token.startsFactor) := by
  unfold takeNumberPart
  dsimp only
  split <;> simp

@[simp] theorem coefficient_takeSign (yard : Yard) (following : List Token) :
    (yard.takeSign following).coefficient = yard.coefficient := by
  unfold takeSign
  dsimp only
  split
  · simp
  · split <;> simp

/-- No coefficient is set before a token that is no operand to multiply. -/
theorem coefficient_eq_false {yard : Yard} {token : Token}
    (h : yard.coefficient → token.startsFactor) (hfactor : token.startsFactor = false) :
    yard.coefficient = false := by
  cases hset : yard.coefficient with
  | false => rfl
  | true =>
    rw [h hset] at hfactor
    cases hfactor

/-- A coefficient is set exactly between a number and the operand directly behind it. -/
theorem coefficient_step_eq {yard after : Yard} {token : Token} {following : List Token}
    (h : yard.step token following = .ok after)
    (hbefore : yard.coefficient → token.startsFactor) :
    after.coefficient = (token.isNumberPart && following.head?.any Token.startsFactor) := by
  have hother : token.startsFactor = false → yard.coefficient = false :=
    coefficient_eq_false hbefore
  rcases step_eq_ok_iff.mp h with ⟨rfl, rfl⟩ | ⟨-, next, hnext, rfl⟩
  · exact hother rfl
  · show next.coefficient = _
    cases token with
    | digit d =>
      cases hnext
      simp [hother rfl, Token.isNumberPart]
    | point =>
      cases hnext
      simp [hother rfl, Token.isNumberPart]
    | constant c =>
      cases hnext
      simp [Token.isNumberPart]
    | var =>
      cases hnext
      simp [Token.isNumberPart]
    | fn f _ =>
      cases hnext
      simp [beginCall, Token.isNumberPart]
    | openGroup =>
      cases hnext
      simp [Yard.openGroup, Token.isNumberPart]
    | negative =>
      cases hnext
      simp [hother rfl, Token.isNumberPart]
    | literal n =>
      cases hnext
      simp [hother rfl, Token.isNumberPart]
    | operator op =>
      cases hnext
      split <;> simp [hother rfl, Token.isNumberPart]
    | space =>
      cases hnext
      exact hother rfl
    | openCall =>
      cases hnext
      exact hother rfl
    | closeGroup =>
      obtain ⟨held, -, rfl⟩ := closeGroup_eq_ok_iff.mp hnext
      simp [hother rfl, Token.isNumberPart]
    | closeCall =>
      obtain ⟨held, outer, f, arg, calls, -, -, -, rfl⟩ := closeCall_eq_ok_iff.mp hnext
      simp [hother rfl, Token.isNumberPart]

/-- A coefficient is set only in front of an operand. -/
theorem coefficient_step {yard after : Yard} {token : Token} {following : List Token}
    (h : yard.step token following = .ok after)
    (hbefore : yard.coefficient → token.startsFactor) (hafter : after.coefficient) :
    following.head?.any Token.startsFactor := by
  rw [coefficient_step_eq h hbefore, Bool.and_eq_true] at hafter
  exact hafter.2

/-- No coefficient is left over behind the last token. -/
theorem coefficient_run {tokens : List Token} {yard after : Yard}
    (h : yard.run tokens = .ok after)
    (hbefore : yard.coefficient → tokens.head?.any Token.startsFactor) :
    after.coefficient = false := by
  induction tokens generalizing yard with
  | nil =>
    cases h
    simpa using hbefore
  | cons token tokens ih =>
    rw [run] at h
    split at h
    · rename_i next hstep
      exact ih h (coefficient_step hstep (by simpa using hbefore))
    · cases h

end Yard

end Calculator.ReversePolish
