import Calculator.Proofs.Outcomes
import Calculator.Proofs.ReversePolish.Numbers

/-!
# What the yard puts out

In everything that the yard puts out, the numbers stand apart: each is a row of digits
and points, perhaps with a sign in front, and with a space behind.  Whether the rows can
be read as numbers is not a matter of the yard.

* `Yard.Apart` says this of all outputs of a state, and `Yard.apart_run` that it is kept.
  A number is put out in more than one step, so the induction takes whole numbers.
* `Apart.joined`: a list like this can be joined only if each row is a number, and then
  joining does no more than to put literals in the places of the numbers.
* `joined_ofInfix` puts both together.
-/

namespace Calculator.ReversePolish

open Outcomes (bind_eq_ok_iff map_eq_ok_iff)

/-- Lists in which every row of digits and points has a space behind it, also in the
arguments of functions. -/
inductive Apart : List Token → Prop where
  | nil : Apart []
  | number (negative : Bool) {parts tokens : List Token} (hne : parts ≠ [])
      (hparts : ∀ token ∈ parts, token.isNumberPart) (tail : Apart tokens) :
      Apart (Token.sign negative ++ parts ++ .space :: tokens)
  | symbol {token : Token} (htoken : isSymbol token) {tokens : List Token} (tail : Apart tokens) :
      Apart (token :: tokens)
  | fn (f : Fn) {arg tokens : List Token} (harg : Apart arg) (tail : Apart tokens) :
      Apart (.fn f arg :: tokens)

theorem Apart.append {tokens more : List Token} (h : Apart tokens) (hmore : Apart more) :
    Apart (tokens ++ more) := by
  induction h with
  | nil => exact hmore
  | number negative hne hparts _ ih =>
    rw [List.append_assoc, List.cons_append]
    exact .number negative hne hparts ih
  | symbol htoken _ ih => exact .symbol htoken ih
  | fn f harg _ _ ih => exact .fn f harg ih

theorem apart_operators (ops : List Operator) : Apart (ops.map Token.operator) := by
  induction ops with
  | nil => exact .nil
  | cons op ops ih => exact .symbol rfl ih

/-- Without a space there is no number, either. -/
theorem Apart.joined_self {tokens : List Token} (h : Apart tokens) (hfree : isSpaceFree tokens) :
    Joined tokens tokens := by
  induction h with
  | nil => exact .nil
  | number negative hne hparts _ _ =>
    rw [isSpaceFree_append] at hfree
    simp [isSpaceFree, isSpaceFreeToken] at hfree
  | symbol htoken _ ih =>
    rw [isSpaceFree, Bool.and_eq_true] at hfree
    exact .symbol htoken (ih hfree.2)
  | fn f _ _ iharg ih =>
    rw [isSpaceFree, Bool.and_eq_true] at hfree
    exact .fn f (iharg hfree.1) (ih hfree.2)

/-- A list with its numbers set apart can be joined only if each of them can be read. -/
theorem Apart.joined {tokens out : List Token} (h : Apart tokens)
    (hjoin : joinFrom "" tokens = .ok out) : Joined tokens out := by
  induction h generalizing out with
  | nil =>
    cases hjoin
    exact .nil
  | @number negative parts tokens hne hparts _ ih =>
    rw [joinFrom_sign negative hne hparts] at hjoin
    obtain ⟨number, hnumber, hjoin⟩ := bind_eq_ok_iff.mp hjoin
    obtain ⟨rest, hrest, hout⟩ := bind_eq_ok_iff.mp hjoin
    have hread : (Numeral.ofText? ((if negative then "-" else "") ++
        String.ofList (parts.flatMap fun token => token.spelling.toList))).isSome := by
      rw [literal] at hnumber
      split at hnumber
      · rename_i n hn
        rw [hn]
        rfl
      · cases hnumber
    obtain ⟨magnitude, rfl⟩ := PlainNumber.exists_of_isSome_ofText? hne hparts negative hread
    have hliteral := joinFrom_signedNumber ⟨negative, magnitude⟩ tokens
    rw [SignedNumber.tokens, joinFrom_sign negative hne hparts, hnumber, hrest] at hliteral
    cases hliteral
    cases hout
    exact .number ⟨negative, magnitude⟩ (ih hrest)
  | @symbol token htoken tokens _ ih =>
    rw [joinFrom_symbol htoken] at hjoin
    obtain ⟨rest, hrest, hout⟩ := bind_eq_ok_iff.mp hjoin
    cases hout
    exact .symbol htoken (ih hrest)
  | @fn f arg tokens harg _ iharg ih =>
    rw [joinFrom_cons rfl] at hjoin
    obtain ⟨token, htoken, hjoin⟩ := bind_eq_ok_iff.mp hjoin
    obtain ⟨rest, hrest, hout⟩ := bind_eq_ok_iff.mp hjoin
    cases hout
    rw [joinToken] at htoken
    split at htoken
    · rename_i hfree
      cases htoken
      exact .fn f (harg.joined_self hfree) (ih hrest)
    · obtain ⟨out, hjoined, rfl⟩ := map_eq_ok_iff.mp htoken
      exact .fn f (iharg hjoined) (ih hrest)

namespace Yard

/-- Whether the numbers stand apart in all outputs of a state. -/
def Apart (yard : Yard) : Prop :=
  ReversePolish.Apart yard.output.reverse ∧ ∀ call ∈ yard.calls, ReversePolish.Apart call.2.reverse

theorem apart_start : start.Apart := ⟨.nil, by simp [start]⟩

/-- Whole numbers and other tokens may be put out. -/
theorem Apart.putAll {yard : Yard} (h : yard.Apart) {tokens : List Token}
    (htokens : ReversePolish.Apart tokens.reverse) : (yard.putAll tokens).Apart := by
  obtain ⟨output, calls, held, outer, coefficient, expects⟩ := yard
  obtain ⟨houtput, hcalls⟩ := h
  cases calls with
  | nil =>
    refine ⟨?_, by simp [Yard.putAll]⟩
    show ReversePolish.Apart (tokens ++ output).reverse
    rw [List.reverse_append]
    exact houtput.append htokens
  | cons call calls =>
    refine ⟨houtput, ?_⟩
    intro entry hmem
    rcases List.mem_cons.mp hmem with rfl | hmem
    · show ReversePolish.Apart (tokens ++ call.2).reverse
      rw [List.reverse_append]
      exact (hcalls call List.mem_cons_self).append htokens
    · exact hcalls entry (List.mem_cons_of_mem _ hmem)

theorem Apart.put {yard : Yard} (h : yard.Apart) {token : Token}
    (htoken : ReversePolish.Apart [token]) : (yard.put token).Apart := by
  rw [← putAll_singleton]
  exact h.putAll htoken

theorem Apart.release {yard : Yard} (h : yard.Apart) (goesOn : Operator → Bool) :
    (yard.release goesOn).Apart := by
  have hheld : Apart { yard with held := (splitHeld goesOn yard.held).2 } := h
  rw [release_eq]
  apply hheld.putAll
  rw [List.reverse_reverse]
  exact apart_operators _

theorem Apart.applyCoefficient {yard : Yard} (h : yard.Apart) : yard.applyCoefficient.Apart := by
  unfold Yard.applyCoefficient
  split
  · exact h
  · exact h

theorem Apart.takeNumber {yard : Yard} (h : yard.Apart) (negative : Bool) {parts : List Token}
    (hne : parts ≠ []) (hparts : ∀ token ∈ parts, token.isNumberPart) (multiplies : Bool) :
    (yard.takeNumber (Token.sign negative ++ parts) multiplies).Apart := by
  unfold Yard.takeNumber
  refine Apart.putAll h ?_
  rw [List.reverse_cons, List.reverse_reverse]
  exact .number negative hne hparts .nil

theorem Apart.closeCall {yard closed : Yard} (h : yard.Apart)
    (hclose : yard.closeCall = .ok closed) : closed.Apart := by
  obtain ⟨held, outer, f, arg, calls, -, -, hcalls, rfl⟩ := closeCall_eq_ok_iff.mp hclose
  obtain ⟨houtput, hargs⟩ := h.release fun _ => true
  have harg : ReversePolish.Apart arg.reverse := hargs (f, arg) (by
    rw [← releaseAll, hcalls]
    exact List.mem_cons_self)
  have houter : Apart { yard.releaseAll with held, outer, calls } := by
    refine ⟨houtput, ?_⟩
    intro call hmem
    apply hargs call
    rw [← releaseAll, hcalls]
    exact List.mem_cons_of_mem _ hmem
  exact houter.put (.fn f harg .nil)

/-- Whether the tokens behind a `-` make it the sign of a number. -/
def numberAhead (following : List Token) : Bool :=
  (following.find? fun token => !token.isSpace).any Token.isNumberPart

/-- A sign that is none of a number is put out as the number it stands for. -/
theorem Apart.takeSign {yard : Yard} (h : yard.Apart) {following : List Token}
    (hahead : numberAhead following = false) : (yard.takeSign following).Apart := by
  rw [Yard.takeSign]
  split
  · rename_i hnumber
    rw [numberAhead, hnumber] at hahead
    cases hahead
  · split
    · have hone : ReversePolish.Apart
          (Token.sign true ++ [.digit ⟨1, one_lt_ten⟩] ++ .space :: []) :=
        .number true (by simp) (by simp [Token.isNumberPart]) .nil
      have hput : (yard.putAll [.space, .digit ⟨1, one_lt_ten⟩, .negative]).Apart :=
        h.putAll hone
      rw [putAll_cons, putAll_cons, putAll_singleton] at hput
      exact hput
    · exact h.release _

/-- Whether a token can be read from a text. -/
def isRead : Token → Bool
  | .negative | .literal _ => false
  | _ => true

/-- A step puts whole numbers and other tokens out, unless its token is a part of a number. -/
theorem Apart.step {yard after : Yard} (h : yard.Apart) {token : Token} {following : List Token}
    (hstep : yard.step token following = .ok after) (hnegative : token ≠ .negative)
    (hpart : token.isNumberPart = false)
    (hsign : token = .operator .sub → yard.expectsOperand → numberAhead following = false) :
    after.Apart := by
  rcases step_eq_ok_iff.mp hstep with ⟨rfl, rfl⟩ | ⟨-, next, hnext, rfl⟩
  · exact h
  · show next.Apart
    cases token with
    | digit d => cases hpart
    | point => cases hpart
    | negative => exact absurd rfl hnegative
    | literal n =>
      cases hnext
      exact h.put (.symbol rfl .nil)
    | constant c =>
      cases hnext
      exact h.applyCoefficient.put (.symbol rfl .nil)
    | var =>
      cases hnext
      exact h.applyCoefficient.put (.symbol rfl .nil)
    | operator op =>
      cases hnext
      split
      · rename_i hexpects
        exact h.takeSign (hsign (by rw [hexpects.1]) hexpects.2)
      · exact h.release _
    | fn f arg =>
      cases hnext
      refine ⟨h.applyCoefficient.1, ?_⟩
      intro call hmem
      rcases List.mem_cons.mp hmem with rfl | hmem
      · exact .nil
      · exact h.applyCoefficient.2 call hmem
    | space =>
      cases hnext
      exact h
    | openGroup =>
      cases hnext
      exact h.applyCoefficient
    | openCall =>
      cases hnext
      exact h
    | closeGroup =>
      obtain ⟨held, -, rfl⟩ := closeGroup_eq_ok_iff.mp hnext
      exact h.release _
    | closeCall => exact h.closeCall hnext

/-! ## A whole run -/

/-- Splits the row of a number off. -/
theorem exists_number_append {token : Token} (htoken : token.isNumberPart) (rest : List Token) :
    ∃ parts more, token :: rest = parts ++ more ∧ parts ≠ [] ∧
      (∀ token ∈ parts, token.isNumberPart) ∧ more.head?.any Token.isNumberPart = false ∧
      more.length ≤ rest.length := by
  induction rest generalizing token with
  | nil => exact ⟨[token], [], rfl, by simp, by simpa using htoken, rfl, Nat.le_refl _⟩
  | cons next rest ih =>
    by_cases hnext : next.isNumberPart
    · obtain ⟨parts, more, heq, -, hparts, hmore, hle⟩ := ih hnext
      refine ⟨token :: parts, more, by rw [heq]; rfl, by simp, ?_, hmore, ?_⟩
      · intro part hmem
        rcases List.mem_cons.mp hmem with rfl | hmem
        · exact htoken
        · exact hparts part hmem
      · rw [List.length_cons]
        omega
    · refine ⟨[token], next :: rest, rfl, by simp, by simpa using htoken, ?_, Nat.le_refl _⟩
      simpa using hnext

/-- Splits the white space off. -/
theorem exists_spaces_append (tokens : List Token) :
    ∃ spaces rest, tokens = spaces ++ rest ∧ (∀ token ∈ spaces, token = .space) ∧
      rest.head? = tokens.find? (fun token => !token.isSpace) := by
  induction tokens with
  | nil => exact ⟨[], [], rfl, by simp, rfl⟩
  | cons token tokens ih =>
    cases token with
    | space =>
      obtain ⟨spaces, rest, rfl, hspaces, hrest⟩ := ih
      exact ⟨.space :: spaces, rest, rfl, by simpa using hspaces, hrest⟩
    | _ => exact ⟨[], _, rfl, by simp, rfl⟩

/-- Splits the white space and the row of a number behind a sign off. -/
theorem exists_spaces_number_append {following : List Token} (h : numberAhead following) :
    ∃ spaces parts more, following = spaces ++ (parts ++ more) ∧
      (∀ token ∈ spaces, token = .space) ∧ parts ≠ [] ∧
      (∀ token ∈ parts, token.isNumberPart) ∧ more.head?.any Token.isNumberPart = false ∧
      more.length ≤ following.length := by
  obtain ⟨spaces, rest, rfl, hspaces, hrest⟩ := exists_spaces_append following
  rw [numberAhead, ← hrest] at h
  cases rest with
  | nil => cases h
  | cons first rest =>
    have hfirst : first.isNumberPart := h
    obtain ⟨parts, more, heq, hne, hparts, hmore, hle⟩ := exists_number_append hfirst rest
    refine ⟨spaces, parts, more, by rw [heq], hspaces, hne, hparts, hmore, ?_⟩
    rw [List.length_append, List.length_cons]
    omega

/-- The numbers stand apart in all outputs of a run.  A row of digits and points is taken as a
whole, with its sign. -/
theorem apart_run {tokens : List Token} {yard after : Yard} (h : yard.run tokens = .ok after)
    (hnegative : Token.negative ∉ tokens)
    (hbefore : yard.coefficient → tokens.head?.any Token.startsFactor) (hyard : yard.Apart) :
    after.Apart := by
  -- The rest behind a number is no tail of the tokens, but it is shorter than they are.
  induction hn : tokens.length using Nat.strongRecOn generalizing tokens yard with
  | _ n ih =>
  subst hn
  cases tokens with
  | nil =>
    cases h
    exact hyard
  | cons token following =>
    have hflag : yard.coefficient → token.startsFactor := by simpa using hbefore
    by_cases hpart : token.isNumberPart
    · have hcoefficient : yard.coefficient = false := by
        refine coefficient_eq_false hflag ?_
        cases token <;> first | rfl | cases hpart
      obtain ⟨parts, more, heq, hne, hparts, hmore, hle⟩ := exists_number_append hpart following
      rw [heq] at h hnegative
      rw [run_number hne hparts hmore hcoefficient] at h
      refine ih more.length ?_ h (fun hmem => hnegative (by simp [hmem])) id ?_ rfl
      · rw [List.length_cons]
        omega
      · exact hyard.takeNumber false hne hparts _
    · by_cases hsign : token = .operator .sub ∧ yard.expectsOperand ∧ numberAhead following
      · obtain ⟨rfl, hexpects, hahead⟩ := hsign
        have hcoefficient : yard.coefficient = false := coefficient_eq_false hflag rfl
        obtain ⟨spaces, parts, more, rfl, hspaces, hne, hparts, hmore, hle⟩ :=
          exists_spaces_number_append hahead
        have hrun := run_sign_number hspaces hne hparts hmore hcoefficient hexpects
        rw [List.cons_append] at hrun
        rw [hrun] at h
        refine ih more.length ?_ h (fun hmem => hnegative (by simp [hmem])) id ?_ rfl
        · rw [List.length_cons]
          omega
        · exact hyard.takeNumber true hne hparts _
      · rw [run] at h
        split at h
        · rename_i next hstep
          refine ih following.length (Nat.lt_succ_self _) h
            (fun hmem => hnegative (List.mem_cons_of_mem _ hmem))
            (coefficient_step hstep hflag) ?_ rfl
          refine hyard.step hstep (List.ne_of_not_mem_cons hnegative).symm
            (by simpa using hpart) ?_
          intro htoken hexpects
          by_contra hahead
          exact hsign ⟨htoken, hexpects, by simpa using hahead⟩
        · cases h

end Yard

/-- What the yard puts out has its numbers set apart, unless there were signs in it before. -/
theorem apart_ofInfix {tokens out : List Token} (h : ofInfix tokens = .ok out)
    (hnegative : Token.negative ∉ tokens) : Apart out := by
  obtain ⟨yard, hrun, hresult⟩ := ofInfix_eq_ok_iff.mp h
  obtain ⟨-, -, -, rfl⟩ := Yard.result_eq_ok_iff.mp hresult
  have hyard := Yard.apart_run hrun hnegative (by simp [Yard.start]) Yard.apart_start
  exact (hyard.release fun _ => true).1

/-- If the digits of a formula in reverse Polish order can be joined, each of its numbers is one
that can be read, and it becomes one literal. -/
theorem joined_ofInfix {tokens apart joined : List Token} (h : ofInfix tokens = .ok apart)
    (hnegative : Token.negative ∉ tokens) (hjoin : joinDigits apart = .ok joined) :
    Joined apart joined := by
  have hapart : Apart apart := apart_ofInfix h hnegative
  rw [joinDigits] at hjoin
  split at hjoin
  · rename_i hfree
    cases hjoin
    exact hapart.joined_self hfree
  · exact hapart.joined hjoin

end Calculator.ReversePolish
