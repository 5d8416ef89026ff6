import Calculator.Proofs.ReversePolish.Sidings

/-!
# Between two tokens

What is known of the state behind some tokens, whatever they are and whatever is still to come.

* `Yard.coefficient_advance`: the coefficient is set exactly between a number and the operand
  directly behind it.  `Yard.step_of_startsFactor` is what that operand does with it.
* `Yard.calls_step` compares the functions that are open with the scopes.  In the tokens of a text,
  each scope belongs to a function, and only right behind a function its scope is missing
  (`Yard.level_advance`).
* There is always a stack to work on, which is a matter of `Sidings`.

`Sidings.wellKept_behind` puts these together.
-/

namespace Calculator.ReversePolish

open Outcomes (map_eq_ok_iff orMalformed_eq_ok_iff)

/-! ## The coefficient of a state -/

namespace Yard

/-- The coefficient is set exactly behind a number with an operand directly behind it. -/
theorem coefficient_advance {before following : List Token} {yard : Yard}
    (h : advance step start following before = .ok yard) :
    yard.coefficient =
      (before.getLast?.any Token.isNumberPart && following.head?.any Token.startsFactor) := by
  let Inv (before following : List Token) (yard : Yard) : Prop := yard.coefficient =
    (before.getLast?.any Token.isNumberPart && following.head?.any Token.startsFactor)
  have hstart : Inv [] (before ++ following) start := rfl
  refine advance_invariant Inv ?_ hstart h
  intro before token following yard after hbefore hstep
  show after.coefficient = _
  rw [List.getLast?_concat]
  refine coefficient_step_eq hstep ?_
  intro hset
  rw [hbefore, Bool.and_eq_true] at hset
  exact hset.2

theorem applyCoefficient_applyCoefficient (yard : Yard) :
    yard.applyCoefficient.applyCoefficient = yard.applyCoefficient := by
  rw [applyCoefficient, if_neg (by simp)]

/-- The operand that a number multiplies is taken in behind the multiplication, and no later token
finds the coefficient still set. -/
theorem step_of_startsFactor (yard : Yard) {token : Token} (htoken : token.startsFactor)
    (following : List Token) :
    yard.step token following = yard.applyCoefficient.step token following ∧
      ∃ after, yard.step token following = .ok after ∧ after.coefficient = false := by
  cases token with
  | var | constant c =>
    simp only [step, take, applyCoefficient_applyCoefficient]
    exact ⟨rfl, _, rfl, (coefficient_put _ _).trans (coefficient_applyCoefficient yard)⟩
  | fn f arg | openGroup =>
    simp only [step, take, applyCoefficient_applyCoefficient]
    exact ⟨rfl, _, rfl, coefficient_applyCoefficient yard⟩
  | _ => cases htoken

end Yard

/-! ## Scopes and functions -/

/-- By how many a token makes the open functions more than the enclosing scopes. -/
def callsAhead : Token → Int
  | .fn _ _ => 1
  | .openCall => -1
  | _ => 0

theorem Nesting.calls_next {nesting after : Nesting} {token : Token}
    (h : nesting.next token = some after) :
    (after.calls : Int) - after.outer.length =
      nesting.calls - nesting.outer.length + callsAhead token := by
  obtain ⟨groups, outer, calls⟩ := nesting
  cases token with
  | closeGroup =>
    cases groups <;> cases h
    simp [callsAhead]
  | closeCall =>
    rcases groups with _ | groups
    · rcases outer with _ | ⟨outermost, outer⟩
      · cases h
      · cases calls <;> cases h
        simp only [callsAhead, List.length_cons]
        omega
    · cases h
  | fn f arg | openCall =>
    cases h
    simp only [callsAhead, List.length_cons]
    omega
  | _ =>
    cases h
    simp [callsAhead]

namespace Yard

/-- Only a function and the bracket of an argument change by how many the open functions are more
than the enclosing scopes. -/
theorem calls_step {yard after : Yard} {token : Token} {following : List Token}
    (h : yard.step token following = .ok after) :
    (after.calls.length : Int) - after.outer.length =
      yard.calls.length - yard.outer.length + callsAhead token := by
  have hnesting := nesting_step yard token following
  rw [h] at hnesting
  simpa [nesting] using Nesting.calls_next (orMalformed_eq_ok_iff.mp hnesting.symm)

/-- Every function has its bracket, and every scope its function: right behind a function its scope
is still missing. -/
def Level (before following : List Token) (yard : Yard) : Prop :=
  if before.getLast?.any Token.isFn then
    (∃ rest, following = .openCall :: rest ∧ Paired rest) ∧
      yard.calls.length = yard.outer.length + 1
  else Paired following ∧ yard.calls.length = yard.outer.length

theorem Level.step {before following : List Token} {token : Token} {yard after : Yard}
    (h : Level before (token :: following) yard) (hstep : yard.step token following = .ok after) :
    Level (before ++ [token]) following after := by
  have hcalls := calls_step hstep
  unfold Level at h ⊢
  rw [List.getLast?_concat]
  split at h
  · -- Right behind a function comes its bracket, with the scope that was missing.
    obtain ⟨⟨rest, hrest, hpaired⟩, hlevel⟩ := h
    cases hrest
    refine ⟨hpaired, ?_⟩
    simp only [callsAhead] at hcalls
    omega
  · obtain ⟨hpaired, hlevel⟩ := h
    cases hpaired with
    | single hfn hopen hpaired =>
      have hahead : callsAhead token = 0 := by
        cases token with
        | fn f arg => cases hfn
        | openCall => exact absurd rfl hopen
        | _ => rfl
      rw [Option.any_some, if_neg (by simp [hfn])]
      refine ⟨hpaired, ?_⟩
      omega
    | call f arg hpaired =>
      refine ⟨⟨_, rfl, hpaired⟩, ?_⟩
      simp only [callsAhead] at hcalls
      omega

/-- In the tokens of a text, as many functions are open as there are enclosing scopes, and one more
right behind a function. -/
theorem level_advance {M : Type → Type} [NameTable M] {names : M Fn} {text : String}
    {before following : List Token} {yard : Yard}
    (htokens : (Lexer.ofText names text).tokens = .ok (before ++ following))
    (h : advance step start following before = .ok yard) : Level before following yard := by
  obtain ⟨hreads, -⟩ := Lexer.tokens_iff_reads.mp htokens
  have hpaired : Paired (before ++ following) := (paired_of_reads hreads).of_unmark
  have hstart : Level [] (before ++ following) start := ⟨hpaired, rfl⟩
  exact advance_invariant Level (fun _ _ _ _ _ => Level.step) hstart h

end Yard

/-! ## What holds between two tokens -/

namespace Sidings

/-- What holds of the state behind the tokens `before`, with `following` still to come. -/
structure WellKept (missing : ReadError) (before following : List Token) (state : Sidings) :
    Prop where
  tracks_ne_nil : state.tracks ≠ []
  /-- The innermost stack is found. -/
  active_ok : ∃ held outer, state.active missing = .ok (held, outer)
  /-- Any operator can be taken in. -/
  takeOperator_ok : ∀ op, ∃ after, state.takeOperator missing op = .ok after
  /-- The multiplication of a coefficient can be put in. -/
  applyCoefficient_ok : ∃ after, state.applyCoefficient missing = .ok after
  /-- The coefficient is set exactly behind a number with an operand directly behind it. -/
  coefficient_eq : state.coefficient =
    (before.getLast?.any Token.isNumberPart && following.head?.any Token.startsFactor)
  /-- The next token then finds the multiplication on the innermost stack, and the coefficient is
  gone behind it. -/
  multiplies : state.coefficient → ∃ held outer token rest after,
    state.tracks = held :: outer ∧ following = token :: rest ∧
      state.step missing token rest =
        { state with tracks := (.operator .mul :: held) :: outer, coefficient := false }.step
          missing token rest ∧
      state.step missing token rest = .ok after ∧ after.coefficient = false

variable {missing : ReadError}

theorem wellKept_sidings {before following : List Token} {yard : Yard}
    (h : advance Yard.step Yard.start following before = .ok yard) :
    WellKept missing before following yard.sidings where
  tracks_ne_nil := List.cons_ne_nil _ _
  active_ok := ⟨_, _, rfl⟩
  takeOperator_ok op := ⟨_, takeOperator_sidings yard op⟩
  applyCoefficient_ok := ⟨_, applyCoefficient_sidings yard⟩
  coefficient_eq := Yard.coefficient_advance h
  multiplies := by
    intro hset
    have hcoefficient := Yard.coefficient_advance h
    rw [show yard.coefficient = true from hset, eq_comm, Bool.and_eq_true] at hcoefficient
    obtain ⟨token, hhead, htoken⟩ := (Option.any_eq_true _ _).mp hcoefficient.2
    obtain ⟨rest, rfl⟩ := List.head?_eq_some_iff.mp hhead
    obtain ⟨hstep, after, hafter, hgone⟩ := yard.step_of_startsFactor htoken rest
    have hmultiplied : yard.applyCoefficient = { yard with coefficient := false }.hold .mul :=
      if_pos hset
    refine ⟨yard.held, yard.outer, token, rest, after.sidings, rfl, rfl, ?_, ?_, hgone⟩
    · rw [step_sidings, hstep, hmultiplied, ← step_sidings]
      rfl
    · rw [step_sidings, hafter]
      rfl

/-- Between two tokens there is always a stack to work on, whatever the tokens are.  The states on
the way and the result are those of the yard, with no word of the reason `missing`, so no step ever
looks for a stack in vain.  The coefficient is set only for the next token, and that token takes it.

In the tokens of a text there is one stack more than functions are open, but right behind a function
there are as many. -/
theorem wellKept_behind (missing : ReadError) :
    (∀ tokens, ofInfixWith missing tokens = ofInfix tokens) ∧
      ∀ before following,
        behind missing before following =
            Yard.sidings <$> advance Yard.step Yard.start following before ∧
          ∀ state, behind missing before following = .ok state →
            WellKept missing before following state ∧
              ∀ {M : Type → Type} [NameTable M] (names : M Fn) (text : String),
                (Lexer.ofText names text).tokens = .ok (before ++ following) →
                  state.tracks.length =
                    state.calls.length + if before.getLast?.any Token.isFn then 0 else 1 := by
  refine ⟨ofInfixWith_eq, fun before following => ⟨behind_eq before following, ?_⟩⟩
  intro state hstate
  rw [behind_eq] at hstate
  obtain ⟨yard, hyard, rfl⟩ := map_eq_ok_iff.mp hstate
  refine ⟨wellKept_sidings hyard, ?_⟩
  intro M _ names text htokens
  have hlevel := Yard.level_advance htokens hyard
  show yard.outer.length + 1 = yard.calls.length + _
  unfold Yard.Level at hlevel
  split at hlevel
  · rw [if_pos ‹_›]
    omega
  · rw [if_neg ‹_›]
    omega

/-- In other tokens than those of a text, there may be a scope without a function. -/
example : (fun state => (state.tracks.length, state.calls.length)) <$>
    behind .malformed [.openCall] [.var] = .ok (2, 0) := rfl

/-- Behind a number that multiplies a function, and behind that function before its bracket. -/
theorem wellKept_behind_coefficient :
    let tokens : List Token := [.digit 2, .fn .sin [], .openCall, .digit 3, .var, .closeCall]
    ∃ number function,
      ((Lexer.ofText standardNames "2sin(3x)").tokens = .ok tokens ∧
        behind .malformed (tokens.take 1) (tokens.drop 1) = .ok number ∧
        behind .malformed (tokens.take 2) (tokens.drop 2) = .ok function) ∧
      (number.coefficient ∧ number.tracks.length = number.calls.length + 1 ∧
        ∃ after, number.step .malformed (.fn .sin []) (tokens.drop 2) = .ok after ∧
          after.coefficient = false) ∧
      function.coefficient = false ∧ function.tracks.length = function.calls.length := by
  intro tokens
  have hspells : Spells "2sin(3x)".toList (tokens.map Token.unmark) :=
    .single rfl (.call .sin (.single rfl (.single rfl (.single rfl .nil))))
  have htokens : (Lexer.ofText standardNames "2sin(3x)").tokens = .ok tokens :=
    Lexer.tokens_eq_ok_iff.mpr ⟨hspells, [], rfl, List.not_mem_nil⟩
  obtain ⟨-, hbehind⟩ := wellKept_behind .malformed
  obtain ⟨hnumber, hscopes⟩ := (hbehind (tokens.take 1) (tokens.drop 1)).2 _ rfl
  obtain ⟨hfunction, hlevel⟩ := (hbehind (tokens.take 2) (tokens.drop 2)).2 _ rfl
  have hset := hnumber.coefficient_eq
  obtain ⟨_, _, token, rest, after, -, hfollowing, -, hafter, hgone⟩ := hnumber.multiplies hset
  cases hfollowing
  exact ⟨_, _, ⟨htokens, rfl, rfl⟩, ⟨hset, hscopes standardNames _ htokens, after, hafter, hgone⟩,
    hfunction.coefficient_eq, hlevel standardNames _ htokens⟩

end Sidings

end Calculator.ReversePolish
