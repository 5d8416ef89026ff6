import Calculator.Proofs.ReversePolish.Nesting

/-!
# All stacks in one list

A yard has the stack of its innermost scope as a field of its own, so it cannot be without one.
`Sidings` is the same state with the stacks of all scopes in one list, and nothing but its steps
sees to it that the list is not empty.  A step that looks for the innermost stack gives the reason
`missing` where there is none.

* `advance` is the state behind some of the tokens, with others still to come.  `advance_map` and
  `advance_invariant` take a property of single steps to all states on the way, and
  `Yard.run_append` says that a run goes through these states.
* `Yard.sidings` is the state of a yard with its stacks in one list.  One operation after the
  other, the sidings do what the yard does, up to `Sidings.step_sidings` and
  `Sidings.result_sidings`.
* So the states on the way and the result are those of the yard, whatever `missing` is
  (`Sidings.behind_eq`, `Sidings.ofInfixWith_eq`): a missing stack is never met.
-/

namespace Calculator.ReversePolish

open Outcomes (bind_eq_ok_iff)

/-! ## The state behind some of the tokens -/

/-- The state behind the tokens `before`, with the tokens `following` behind them. -/
def advance {σ : Type} (step : σ → Token → List Token → Except ReadError σ) (state : σ)
    (following : List Token) : List Token → Except ReadError σ
  | [] => .ok state
  | token :: before => do
    let next ← step state token (before ++ following)
    advance step next following before

section Advance

variable {σ τ : Type} {step : σ → Token → List Token → Except ReadError σ}
  {other : τ → Token → List Token → Except ReadError τ}

/-- Two states whose steps are the same go on to the same states. -/
theorem advance_map {f : σ → τ}
    (hstep : ∀ state token following,
      other (f state) token following = f <$> step state token following)
    (state : σ) (following before : List Token) :
    advance other (f state) following before = f <$> advance step state following before := by
  induction before generalizing state with
  | nil => rfl
  | cons token before ih =>
    rw [advance, advance, hstep]
    cases step state token (before ++ following) with
    | error e => rfl
    | ok next => exact ih next

/-- What every step preserves holds of all states on the way. -/
theorem advance_invariant (Inv : List Token → List Token → σ → Prop)
    (hstep : ∀ before token following state after, Inv before (token :: following) state →
      step state token following = .ok after → Inv (before ++ [token]) following after)
    {earlier before following : List Token} {state after : σ}
    (hinv : Inv earlier (before ++ following) state)
    (h : advance step state following before = .ok after) :
    Inv (earlier ++ before) following after := by
  induction before generalizing earlier state with
  | nil =>
    cases h
    rw [List.append_nil]
    exact hinv
  | cons token before ih =>
    rw [advance] at h
    obtain ⟨next, hnext, hafter⟩ := bind_eq_ok_iff.mp h
    rw [List.append_cons]
    exact ih (hstep _ _ _ _ _ hinv hnext) hafter

/-- A run goes through the states on the way. -/
theorem Yard.run_append (yard : Yard) (before following : List Token) :
    yard.run (before ++ following) =
      advance Yard.step yard following before >>= (·.run following) := by
  induction before generalizing yard with
  | nil => rfl
  | cons token before ih =>
    rw [List.cons_append, run, advance]
    cases yard.step token (before ++ following) with
    | error e => rfl
    | ok next => exact ih next

end Advance

/-! ## All stacks in one list -/

/-- The state between two tokens, with the stacks of all scopes in one list.  There may be none. -/
structure Sidings where
  /-- The output outside of all arguments. -/
  output : List Token := []
  /-- The functions whose arguments are open, innermost first, each with the output of its
  argument. -/
  calls : List (Fn × List Token) := []
  /-- The stacks of all scopes, innermost first. -/
  tracks : List (List Held) := [[]]
  /-- Whether the token before was the end of a number that multiplies the operand directly
  behind it. -/
  coefficient : Bool := false
  /-- Whether an operand has to come next. -/
  expectsOperand : Bool := true

/-- The state of a yard with its stacks in one list. -/
def Yard.sidings (yard : Yard) : Sidings where
  output := yard.output
  calls := yard.calls
  tracks := yard.held :: yard.outer
  coefficient := yard.coefficient
  expectsOperand := yard.expectsOperand

/-! ## Sending operators on one at a time -/

namespace Yard

variable {yard : Yard} {goesOn : Operator → Bool} {op : Operator} {held : List Held}

/-- An operator on top of the stack that goes on is sent to the output before the others. -/
theorem release_of_goesOn (hheld : yard.held = .operator op :: held) (hop : goesOn op) :
    yard.release goesOn = ({ yard with held }.put (.operator op)).release goesOn := by
  obtain ⟨output, calls, _, outer, coefficient, expects⟩ := yard
  cases hheld
  simp only [release, splitHeld, hop, if_true, List.foldl_cons]
  cases calls <;> rfl

/-- Below anything that does not go on, everything stays. -/
theorem release_of_splitHeld (hheld : splitHeld goesOn yard.held = ([], yard.held)) :
    yard.release goesOn = yard := by
  rw [release, hheld]
  rfl

end Yard

namespace Sidings

/-- The state before the first token: the outermost scope has a stack. -/
def start : Sidings := {}

/-- Adds a token to the output of the innermost open argument, or to the outer output if none is
open. -/
def put (state : Sidings) (token : Token) : Sidings :=
  match state.calls with
  | [] => { state with output := token :: state.output }
  | (f, arg) :: calls => { state with calls := (f, token :: arg) :: calls }

theorem tracks_put (state : Sidings) (token : Token) : (state.put token).tracks = state.tracks := by
  unfold put
  split <;> rfl

section Steps

variable (missing : ReadError)

/-- The stack of the innermost scope, with those around it. -/
def active (state : Sidings) : Except ReadError (List Held × List (List Held)) :=
  match state.tracks with
  | [] => .error missing
  | held :: outer => .ok (held, outer)

theorem tracks_of_active {missing : ReadError} {state : Sidings} {held : List Held}
    {outer : List (List Held)} (h : state.active missing = .ok (held, outer)) :
    state.tracks = held :: outer := by
  unfold active at h
  split at h
  · cases h
  · rename_i htracks
    cases h
    exact htracks

/-- Puts an entry on the innermost stack. -/
def push (state : Sidings) (entry : Held) : Except ReadError Sidings := do
  let (held, outer) ← state.active missing
  return { state with tracks := (entry :: held) :: outer }

/-- The state once the operator on top of the innermost stack has been sent to the output, if there
is one that goes on. -/
def releaseOne (goesOn : Operator → Bool) (state : Sidings) :
    Except ReadError (Option Sidings) := do
  match ← state.active missing with
  | (.operator op :: held, outer) =>
    if goesOn op then return some ({ state with tracks := held :: outer }.put (.operator op))
    else return none
  | _ => return none

/-- How much is held on the innermost stack. -/
def height (state : Sidings) : Nat := (state.tracks.headD []).length

theorem height_lt_of_releaseOne {missing : ReadError} {goesOn : Operator → Bool}
    {state next : Sidings} (h : state.releaseOne missing goesOn = .ok (some next)) :
    next.height < state.height := by
  obtain ⟨top, hactive, h⟩ := bind_eq_ok_iff.mp h
  have htracks := tracks_of_active hactive
  split at h
  · split at h
    · cases h
      rw [height, height, tracks_put, htracks]
      exact Nat.lt_succ_self _
    · cases h
  · cases h

/-- Sends the operators on top of the innermost stack that go on to the output. -/
def release (goesOn : Operator → Bool) (state : Sidings) : Except ReadError Sidings :=
  match h : state.releaseOne missing goesOn with
  | .error e => .error e
  | .ok none => .ok state
  | .ok (some next) =>
    have := height_lt_of_releaseOne h
    release goesOn next
termination_by state.height

/-- Sends the operators of the innermost group to the output and takes its beginning off, if the
innermost scope has an open group. -/
def releaseGroup (state : Sidings) : Except ReadError (Bool × Sidings) := do
  let state ← state.release missing fun _ => true
  let (held, outer) ← state.active missing
  match held with
  | .group :: held => return (true, { state with tracks := held :: outer })
  | _ => return (false, state)

/-- Takes an operator in, behind those that bind at least as tightly. -/
def takeOperator (state : Sidings) (op : Operator) : Except ReadError Sidings := do
  let state ← state.release missing fun waiting => op.precedence ≤ waiting.precedence
  state.push missing (.operator op)

/-- Puts in the multiplication that a number directly before an operand stands for. -/
def applyCoefficient (state : Sidings) : Except ReadError Sidings :=
  if state.coefficient then { state with coefficient := false }.push missing (.operator .mul)
  else .ok state

/-- Takes a digit or point in. -/
def takeNumberPart (state : Sidings) (token : Token) (following : List Token) : Sidings :=
  let next := following.head?
  let multiplies := next.any Token.startsFactor
  let state := { state with coefficient := state.coefficient || multiplies }.put token
  if next.any Token.isNumberPart then state else state.put .space

/-- Takes a `-` in where an operand has to come. -/
def takeSign (state : Sidings) (following : List Token) : Except ReadError Sidings :=
  let next := following.find? fun token => !token.isSpace
  if next.any Token.isNumberPart then .ok (state.put .negative)
  else if next.any Token.startsFactor then
    (((state.put .negative).put (.digit ⟨1, one_lt_ten⟩)).put .space).push missing
      (.operator .mul)
  else state.takeOperator missing .sub

/-- Begins the argument of a function. -/
def beginCall (state : Sidings) (f : Fn) : Sidings :=
  { state with calls := (f, []) :: state.calls }

/-- Opens a scope with a stack of its own. -/
def openScope (state : Sidings) : Sidings := { state with tracks := [] :: state.tracks }

/-- Closes the innermost group, which has to be in the innermost scope. -/
def closeGroup (state : Sidings) : Except ReadError Sidings := do
  let (found, state) ← state.releaseGroup missing
  if found then return state else .error .malformed

/-- Closes the innermost scope, which must not be the outermost one, and the innermost
argument. -/
def closeCall (state : Sidings) : Except ReadError Sidings := do
  let (found, state) ← state.releaseGroup missing
  if found ∨ state.tracks.length < 2 then .error .malformed
  else
    match state.calls with
    | [] => .error .malformed
    | (f, arg) :: calls =>
      return { state with tracks := state.tracks.tail, calls }.put (.fn f arg.reverse)

/-- Takes a token in that is no white space.  `following` are the tokens behind it. -/
def take (state : Sidings) (following : List Token) : Token → Except ReadError Sidings
  | .digit d => .ok (state.takeNumberPart (.digit d) following)
  | .point => .ok (state.takeNumberPart .point following)
  | .negative => .ok (state.put .negative)
  | .literal n => .ok (state.put (.literal n))
  | .constant c => (·.put (.constant c)) <$> state.applyCoefficient missing
  | .var => (·.put .var) <$> state.applyCoefficient missing
  | .operator op =>
    if op = .sub ∧ state.expectsOperand then state.takeSign missing following
    else state.takeOperator missing op
  | .fn f _ => (·.beginCall f) <$> state.applyCoefficient missing
  | .openCall => .ok state.openScope
  | .closeCall => state.closeCall missing
  | .openGroup => state.applyCoefficient missing >>= (·.push missing .group)
  | .closeGroup => state.closeGroup missing
  | .space => .ok state

/-- The state after one more token.  White space changes nothing. -/
def step (state : Sidings) (token : Token) (following : List Token) : Except ReadError Sidings :=
  if token.isSpace then .ok state
  else
    (fun state => { state with expectsOperand := token.awaitsOperand }) <$>
      state.take missing following token

/-- The output once no token is left.  Only the outermost scope may be left, with no group open in
it, and no argument. -/
def result (state : Sidings) : Except ReadError (List Token) :=
  if state.tracks.length ≠ 1 ∨ !state.calls.isEmpty then .error .malformed
  else do
    let (found, state) ← state.releaseGroup missing
    if found then .error .malformed else return state.output.reverse

/-- The state behind the tokens `before`, if `following` come behind them. -/
def behind (before following : List Token) : Except ReadError Sidings :=
  advance (step missing) start following before

/-- The tokens of a formula in reverse Polish order. -/
def ofInfixWith (tokens : List Token) : Except ReadError (List Token) :=
  behind missing tokens [] >>= result missing

end Steps

/-! ## The steps of a yard -/


variable {missing : ReadError}

theorem put_sidings (yard : Yard) (token : Token) :
    yard.sidings.put token = (yard.put token).sidings := by
  unfold put Yard.put Yard.sidings
  cases yard.calls <;> rfl

theorem push_operator_sidings (yard : Yard) (op : Operator) :
    yard.sidings.push missing (.operator op) = .ok (yard.hold op).sidings := rfl

theorem releaseOne_sidings (yard : Yard) (goesOn : Operator → Bool) :
    yard.sidings.releaseOne missing goesOn =
      .ok (match yard.held with
        | .operator op :: held =>
          if goesOn op then some ({ yard with held }.put (.operator op)).sidings else none
        | _ => none) := by
  obtain ⟨output, calls, held, outer, coefficient, expects⟩ := yard
  rcases held with _ | ⟨op | _, held⟩
  · rfl
  · dsimp only
    rw [← put_sidings]
    cases hop : goesOn op with
    | false => simp [releaseOne, active, Yard.sidings, bind, Except.bind, pure, Except.pure, hop]
    | true =>
      simp only [releaseOne, active, Yard.sidings, bind, Except.bind, hop]
      rfl
  · rfl

/-- A release goes on as long as there is an operator that does. -/
theorem release_eq (goesOn : Operator → Bool) (state : Sidings) :
    state.release missing goesOn =
      state.releaseOne missing goesOn >>= fun
        | none => .ok state
        | some next => next.release missing goesOn := by
  rw [release]
  split
  all_goals
    rename_i hround
    simp [hround, bind, Except.bind]

theorem release_sidings (yard : Yard) (goesOn : Operator → Bool) :
    yard.sidings.release missing goesOn = .ok (yard.release goesOn).sidings := by
  -- The operators go on one at a time, so the induction is on those that are held.
  generalize hheld : yard.held = held
  induction held generalizing yard with
  | nil =>
    rw [release_eq, releaseOne_sidings, hheld, Yard.release_of_splitHeld (by rw [hheld]; rfl)]
    rfl
  | cons top held ih =>
    cases top with
    | group =>
      rw [release_eq, releaseOne_sidings, hheld, Yard.release_of_splitHeld (by rw [hheld]; rfl)]
      rfl
    | operator op =>
      rw [release_eq, releaseOne_sidings, hheld]
      by_cases hop : goesOn op
      · rw [Yard.release_of_goesOn hheld hop]
        simp only [hop, if_true]
        exact ih _ (Yard.held_putAll _ [.operator op])
      · have hstay : Yard.splitHeld goesOn yard.held = ([], yard.held) := by
          rw [hheld, Yard.splitHeld, if_neg hop]
        rw [Yard.release_of_splitHeld hstay]
        simp only [hop]
        rfl

theorem releaseGroup_of_nil {yard : Yard} (hheld : yard.releaseAll.held = []) :
    yard.sidings.releaseGroup missing = .ok (false, yard.releaseAll.sidings) := by
  rw [releaseGroup, release_sidings, ← Yard.releaseAll]
  simp only [active, Yard.sidings, bind, Except.bind, hheld]
  rfl

theorem releaseGroup_of_group {yard : Yard} {held : List Held}
    (hheld : yard.releaseAll.held = .group :: held) :
    yard.sidings.releaseGroup missing = .ok (true, { yard.releaseAll with held }.sidings) := by
  rw [releaseGroup, release_sidings, ← Yard.releaseAll]
  simp only [active, Yard.sidings, bind, Except.bind, hheld]
  rfl

theorem takeOperator_sidings (yard : Yard) (op : Operator) :
    yard.sidings.takeOperator missing op = .ok (yard.takeOperator op).sidings := by
  rw [takeOperator, release_sidings]
  rfl

theorem applyCoefficient_sidings (yard : Yard) :
    yard.sidings.applyCoefficient missing = .ok yard.applyCoefficient.sidings := by
  show (if yard.coefficient then _ else _) = _
  rw [Yard.applyCoefficient]
  split
  · rfl
  · rfl

theorem takeNumberPart_sidings (yard : Yard) (token : Token) (following : List Token) :
    yard.sidings.takeNumberPart token following = (yard.takeNumberPart token following).sidings := by
  have hput := put_sidings
    { yard with coefficient := yard.coefficient || following.head?.any Token.startsFactor } token
  unfold takeNumberPart Yard.takeNumberPart
  dsimp only
  split
  · exact hput
  · rw [← put_sidings, ← hput]
    rfl

theorem takeSign_sidings (yard : Yard) (following : List Token) :
    yard.sidings.takeSign missing following = .ok (yard.takeSign following).sidings := by
  unfold takeSign Yard.takeSign
  dsimp only
  split
  · rw [put_sidings]
  · split
    · rw [put_sidings, put_sidings, put_sidings, push_operator_sidings]
    · exact takeOperator_sidings yard .sub

theorem closeGroup_sidings (yard : Yard) :
    yard.sidings.closeGroup missing = Yard.sidings <$> yard.closeGroup := by
  rw [closeGroup, Yard.closeGroup]
  rcases yard.held_releaseAll_cases with hheld | ⟨held, hheld⟩
  · rw [releaseGroup_of_nil hheld]
    simp only [hheld]
    rfl
  · rw [releaseGroup_of_group hheld]
    simp only [hheld]
    rfl

theorem closeCall_sidings (yard : Yard) :
    yard.sidings.closeCall missing = Yard.sidings <$> yard.closeCall := by
  rw [closeCall, Yard.closeCall]
  rcases yard.held_releaseAll_cases with hheld | ⟨held, hheld⟩
  · rw [releaseGroup_of_nil hheld]
    generalize yard.releaseAll = yard at hheld
    obtain ⟨output, calls, _, outer, coefficient, expects⟩ := yard
    cases hheld
    rcases outer with _ | ⟨held, outer⟩
    · rfl
    · rcases calls with _ | ⟨⟨f, arg⟩, calls⟩
      · rfl
      · exact congrArg Except.ok (put_sidings ⟨output, calls, held, outer, coefficient, expects⟩ _)
  · rw [releaseGroup_of_group hheld]
    simp only [hheld]
    rfl

theorem step_sidings (yard : Yard) (token : Token) (following : List Token) :
    yard.sidings.step missing token following = Yard.sidings <$> yard.step token following := by
  have htake : yard.sidings.take missing following token =
      Yard.sidings <$> yard.take following token := by
    cases token with
    | closeGroup => exact closeGroup_sidings yard
    | closeCall => exact closeCall_sidings yard
    | digit d => exact congrArg Except.ok (takeNumberPart_sidings yard _ following)
    | point => exact congrArg Except.ok (takeNumberPart_sidings yard _ following)
    | negative => exact congrArg Except.ok (put_sidings yard _)
    | literal n => exact congrArg Except.ok (put_sidings yard _)
    | operator op =>
      have hexpects : yard.sidings.expectsOperand = yard.expectsOperand := rfl
      rw [take, Yard.take, hexpects]
      split
      · exact takeSign_sidings yard following
      · exact takeOperator_sidings yard op
    | constant c =>
      rw [take, applyCoefficient_sidings]
      exact congrArg Except.ok (put_sidings _ _)
    | var =>
      rw [take, applyCoefficient_sidings]
      exact congrArg Except.ok (put_sidings _ _)
    | fn f arg =>
      rw [take, applyCoefficient_sidings]
      rfl
    | openGroup =>
      rw [take, applyCoefficient_sidings]
      rfl
    | openCall => rfl
    | space => rfl
  rw [step, Yard.step, htake]
  split
  · rfl
  · cases yard.take following token <;> rfl

/-- What is open is not changed by a release, so it can be asked for before or after it. -/
theorem open_iff (yard : Yard) :
    (yard.sidings.tracks.length ≠ 1 ∨ !yard.sidings.calls.isEmpty) ↔
      ¬ (yard.releaseAll.outer = [] ∧ yard.releaseAll.calls = []) := by
  have hnesting := yard.nesting_releaseAll
  have houter : yard.releaseAll.outer.length = yard.outer.length := by
    simpa [Yard.nesting] using congrArg (·.outer.length) hnesting
  have hcalls : yard.releaseAll.calls.length = yard.calls.length := congrArg Nesting.calls hnesting
  rw [← List.length_eq_zero_iff, ← List.length_eq_zero_iff, houter, hcalls, not_and_or]
  simp [Yard.sidings]

theorem result_sidings (yard : Yard) : yard.sidings.result missing = yard.result := by
  rw [result, Yard.result]
  split
  · rename_i hopen
    split
    · rename_i houter hcalls
      exact absurd ⟨houter, hcalls⟩ ((open_iff yard).mp hopen)
    · rfl
  · rename_i hclosed
    rw [open_iff, not_not] at hclosed
    obtain ⟨houter, hcalls⟩ := hclosed
    rcases yard.held_releaseAll_cases with hheld | ⟨held, hheld⟩
    · rw [releaseGroup_of_nil hheld]
      simp only [hheld, houter, hcalls]
      rfl
    · rw [releaseGroup_of_group hheld]
      simp only [hheld]
      rfl

/-- The stacks on the way are those of the yard. -/
theorem behind_eq (before following : List Token) :
    behind missing before following =
      Yard.sidings <$> advance Yard.step Yard.start following before :=
  advance_map step_sidings Yard.start following before

/-- A formula comes to the same, whatever is done where a stack is missing. -/
theorem ofInfixWith_eq (tokens : List Token) : ofInfixWith missing tokens = ofInfix tokens := by
  have hrun := Yard.run_append Yard.start tokens []
  rw [List.append_nil] at hrun
  rw [ofInfixWith, behind_eq, ofInfix, hrun]
  cases advance Yard.step Yard.start [] tokens with
  | error e => rfl
  | ok yard => exact result_sidings yard

end Sidings

end Calculator.ReversePolish
