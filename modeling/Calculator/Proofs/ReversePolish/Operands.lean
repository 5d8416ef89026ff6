import Calculator.Proofs.ReversePolish.Conservation
import Calculator.Proofs.ReversePolish.Numbers
import Mathlib.Algebra.Order.Group.Multiset

/-!
# Operands stay in order

A formula in reverse Polish order is laid out flat by `flat`: every function stands
behind the tokens of its argument, at every depth.

* Tokens that are applied to others, operators and functions, move behind what they are
  applied to.  All others stay where they are: `operands_ofInfix` gives them in the order
  of the formula, from what each of its tokens puts out by `operandsOf`.
* Operators and functions move, but none is lost.  Which there are follows from the law
  of conservation, with a multiset as the measure of a token.
-/

namespace Calculator

namespace Token

/-- The operator that a token is. -/
def operator? : Token → Option Operator
  | operator op => some op
  | _ => none

/-- The function that a token is, without its argument. -/
def fn? : Token → Option Fn
  | fn f _ => some f
  | _ => none

/-- Whether a token is applied to the operands in front of it. -/
def isApplied (token : Token) : Bool := token.operator?.isSome || token.fn?.isSome

/-- Whether a token is a parenthesis, of a group or of an argument. -/
def isBracket : Token → Bool
  | openGroup | closeGroup | openCall | closeCall => true
  | _ => false

end Token

namespace ReversePolish

/-! ## Flat lists -/

mutual

/-- A token behind the tokens of its argument. -/
def flatToken : Token → List Token
  | .fn f arg => flat arg ++ [.fn f []]
  | token => [token]

/-- The tokens of a list at every depth, each function behind the tokens of its argument. -/
def flat : List Token → List Token
  | [] => []
  | token :: tokens => flatToken token ++ flat tokens

end

theorem flat_append (tokens more : List Token) : flat (tokens ++ more) = flat tokens ++ flat more := by
  induction tokens with
  | nil => rfl
  | cons token tokens ih => rw [List.cons_append, flat, flat, ih, List.append_assoc]

/-- The tokens of a list at every depth that are not applied to others. -/
def operands (tokens : List Token) : List Token :=
  (flat tokens).filter fun token => !token.isApplied

theorem operands_append (tokens more : List Token) :
    operands (tokens ++ more) = operands tokens ++ operands more := by
  rw [operands, flat_append, List.filter_append]
  rfl

theorem operands_operators (ops : List Operator) : operands (ops.map Token.operator) = [] := by
  induction ops with
  | nil => rfl
  | cons op ops ih => exact ih

/-- A function adds nothing to the operands of its argument. -/
theorem operands_fn (f : Fn) (arg : List Token) : operands [.fn f arg] = operands arg := by
  have hfn : [Token.fn f []].filter (fun token => !token.isApplied) = [] := rfl
  rw [operands, flat, flat, flatToken, List.append_nil, List.filter_append, hfn, List.append_nil]
  rfl

/-! ## What the tokens of a formula stand for -/

/-- Collects what each token of a formula stands for.  `part` gets whether an operand has to come
where the token stands, and the tokens behind it. -/
def collect {α : Type} (part : Bool → List Token → Token → List α) (expects : Bool) :
    List Token → List α
  | [] => []
  | token :: following =>
    part expects following token ++
      collect part (if token.isSpace then expects else token.awaitsOperand) following

/-- The operands that a token stands for, the end of a number and the `-1` of a sign included. -/
def operandsOf (expects : Bool) (following : List Token) : Token → List Token
  | .digit d =>
    if following.head?.any Token.isNumberPart then [.digit d] else [.digit d, .space]
  | .point => if following.head?.any Token.isNumberPart then [.point] else [.point, .space]
  | .operator op =>
    if op = .sub ∧ expects then
      let next := following.find? fun token => !token.isSpace
      if next.any Token.isNumberPart then [.negative]
      else if next.any Token.startsFactor then [.negative, .digit ⟨1, one_lt_ten⟩, .space]
      else []
    else []
  | .literal n => [.literal n]
  | .negative => [.negative]
  | .constant c => [.constant c]
  | .var => [.var]
  | _ => []

/-- The operators that a token stands for, multiplications that are not written included. -/
def operatorsOf (expects : Bool) (following : List Token) : Token → List Operator
  | .digit _ | .point => if following.head?.any Token.startsFactor then [.mul] else []
  | .operator op =>
    if op = .sub ∧ expects then
      let next := following.find? fun token => !token.isSpace
      if next.any Token.isNumberPart then []
      else if next.any Token.startsFactor then [.mul]
      else [.sub]
    else [op]
  | _ => []

/-! ## The order of operands -/

namespace Yard

/-- The operands in all outputs of a state, outermost first.  An argument that is open has come
behind all that is put out around it. -/
def operands (yard : Yard) : List Token :=
  ReversePolish.operands yard.output.reverse ++
    yard.calls.reverse.flatMap fun (_, arg) => ReversePolish.operands arg.reverse

theorem operands_putAll (yard : Yard) (tokens : List Token) :
    (yard.putAll tokens).operands = yard.operands ++ ReversePolish.operands tokens.reverse := by
  obtain ⟨output, calls, held, outer, coefficient, expects⟩ := yard
  cases calls <;> simp [putAll, operands, operands_append]

theorem operands_put (yard : Yard) (token : Token) :
    (yard.put token).operands = yard.operands ++ ReversePolish.operands [token] := by
  rw [← putAll_singleton, operands_putAll, List.reverse_singleton]

theorem operands_release (yard : Yard) (goesOn : Operator → Bool) :
    (yard.release goesOn).operands = yard.operands := by
  rw [release_eq, operands_putAll, List.reverse_reverse, operands_operators, List.append_nil]
  rfl

theorem operands_takeOperator (yard : Yard) (op : Operator) :
    (yard.takeOperator op).operands = yard.operands := by
  exact operands_release yard _

theorem operands_applyCoefficient (yard : Yard) :
    yard.applyCoefficient.operands = yard.operands := by
  unfold applyCoefficient
  split <;> rfl

theorem operands_takeNumberPart {token : Token} (htoken : ReversePolish.operands [token] = [token])
    (yard : Yard) (following : List Token) :
    (yard.takeNumberPart token following).operands =
      yard.operands ++
        if following.head?.any Token.isNumberPart then [token] else [token, .space] := by
  have hput : (({ yard with
      coefficient := yard.coefficient || following.head?.any Token.startsFactor }).put
        token).operands = yard.operands ++ [token] := by
    rw [operands_put, htoken]
    rfl
  unfold takeNumberPart
  dsimp only
  split
  · exact hput
  · rw [operands_put, hput, List.append_assoc]
    rfl

theorem operands_takeSign (yard : Yard) (following : List Token) :
    (yard.takeSign following).operands =
      yard.operands ++ operandsOf true following (.operator .sub) := by
  rw [operandsOf, if_pos ⟨rfl, rfl⟩]
  unfold takeSign
  dsimp only
  split
  · exact operands_put yard .negative
  · split
    · show (((yard.put .negative).put (.digit ⟨1, one_lt_ten⟩)).put .space).operands = _
      rw [operands_put, operands_put, operands_put, List.append_assoc, List.append_assoc]
      rfl
    · rw [List.append_nil]
      exact operands_takeOperator yard .sub

theorem operands_closeCall {yard closed : Yard} (h : yard.closeCall = .ok closed) :
    closed.operands = yard.operands := by
  obtain ⟨held, outer, f, arg, calls, -, -, hcalls, rfl⟩ := closeCall_eq_ok_iff.mp h
  rw [operands_put, operands_fn, ← operands_release yard fun _ => true, ← releaseAll]
  simp [operands, hcalls]

/-- A step adds the operands of its token behind all others. -/
theorem operands_step {yard after : Yard} {token : Token} {following : List Token}
    (h : yard.step token following = .ok after) :
    after.operands = yard.operands ++ operandsOf yard.expectsOperand following token := by
  rcases step_eq_ok_iff.mp h with ⟨rfl, rfl⟩ | ⟨-, next, hnext, rfl⟩
  · exact (List.append_nil _).symm
  · show next.operands = _
    cases token with
    | digit d =>
      cases hnext
      exact operands_takeNumberPart rfl yard following
    | point =>
      cases hnext
      exact operands_takeNumberPart rfl yard following
    | negative =>
      cases hnext
      exact operands_put yard .negative
    | literal n =>
      cases hnext
      exact operands_put yard (.literal n)
    | constant c =>
      cases hnext
      rw [operands_put, operands_applyCoefficient]
      rfl
    | var =>
      cases hnext
      rw [operands_put, operands_applyCoefficient]
      rfl
    | operator op =>
      cases hnext
      split
      · rename_i hsign
        rw [hsign.1, hsign.2]
        exact operands_takeSign yard following
      · rename_i hsign
        rw [operandsOf, if_neg hsign, List.append_nil]
        exact operands_takeOperator yard op
    | fn f arg =>
      cases hnext
      rw [← operands_applyCoefficient yard]
      simp [beginCall, operands, operandsOf, ReversePolish.operands, flat]
    | space =>
      cases hnext
      exact (List.append_nil _).symm
    | openGroup =>
      cases hnext
      rw [← operands_applyCoefficient yard]
      exact (List.append_nil _).symm
    | openCall =>
      cases hnext
      exact (List.append_nil _).symm
    | closeGroup =>
      obtain ⟨held, -, rfl⟩ := closeGroup_eq_ok_iff.mp hnext
      rw [← operands_release yard fun _ => true]
      exact (List.append_nil _).symm
    | closeCall =>
      rw [operands_closeCall hnext]
      exact (List.append_nil _).symm

theorem operands_run {tokens : List Token} {yard after : Yard} (h : yard.run tokens = .ok after) :
    after.operands = yard.operands ++ collect operandsOf yard.expectsOperand tokens := by
  induction tokens generalizing yard with
  | nil =>
    cases h
    exact (List.append_nil _).symm
  | cons token following ih =>
    rw [run] at h
    split at h
    · rename_i next hstep
      rw [ih h, operands_step hstep, expectsOperand_step hstep, collect, List.append_assoc]
    · cases h

end Yard

/-- Reordering leaves the operands in the order in which they are written. -/
theorem operands_ofInfix {tokens out : List Token} (h : ofInfix tokens = .ok out) :
    operands out = collect operandsOf true tokens := by
  obtain ⟨yard, hrun, hresult⟩ := ofInfix_eq_ok_iff.mp h
  obtain ⟨-, -, hcalls, rfl⟩ := Yard.result_eq_ok_iff.mp hresult
  have hoperands := Yard.operands_run hrun
  rw [← Yard.operands_release yard fun _ => true, ← Yard.releaseAll] at hoperands
  simpa [Yard.operands, hcalls, Yard.start, operands, flat] using hoperands

/-! ## Operators and functions -/

section Parts

variable {α : Type} (part : Token → Option α)

theorem filterMap_singleton (token : Token) : [token].filterMap part = (part token).toList := by
  cases h : part token <;> simp [h]

mutual

theorem totalToken_toList (token : Token) :
    totalToken (fun token => ((part token).toList : Multiset α)) token =
      ((flatToken token).filterMap part : Multiset α) := by
  cases token with
  | fn f arg =>
    rw [totalToken, flatToken, total_toList arg, List.filterMap_append, ← Multiset.coe_add,
      add_comm, filterMap_singleton]
  | _ => rw [totalToken, flatToken, filterMap_singleton] <;> exact fun _ _ h => nomatch h

/-- With multisets as the measure, the total is what the flat list has. -/
theorem total_toList (tokens : List Token) :
    total (fun token => ((part token).toList : Multiset α)) tokens =
      ((flat tokens).filterMap part : Multiset α) := by
  cases tokens with
  | nil => rfl
  | cons token tokens =>
    rw [total, flat, totalToken_toList token, total_toList tokens, List.filterMap_append,
      ← Multiset.coe_add]

end

/-- What a flat list has of some kind is what the tokens of the formula stand for, if every token
brings in what it stands for. -/
theorem filterMap_flat_ofInfix {partOf : Bool → List Token → Token → List α}
    (hintake : ∀ expects following token,
      Yard.intake (fun token => ((part token).toList : Multiset α)) expects following token =
        (partOf expects following token : Multiset α))
    {tokens out : List Token} (h : ofInfix tokens = .ok out) :
    ((flat out).filterMap part).Perm (collect partOf true tokens) := by
  have hcollect : ∀ expects, Yard.intakeAll (fun token => ((part token).toList : Multiset α))
      expects tokens = (collect partOf expects tokens : Multiset α) := by
    intro expects
    clear h
    induction tokens generalizing expects with
    | nil => rfl
    | cons token following ih =>
      rw [Yard.intakeAll, collect, hintake, ih, Multiset.coe_add]
  rw [← Multiset.coe_eq_coe, ← total_toList, total_ofInfix _ h, hcollect]

end Parts

theorem mem_collect {β : Type} {partOf : Bool → List Token → Token → List β} {expects : Bool}
    {tokens : List Token} {b : β} (h : b ∈ collect partOf expects tokens) :
    ∃ expects following, ∃ token ∈ tokens, b ∈ partOf expects following token := by
  induction tokens generalizing expects with
  | nil => cases h
  | cons token following ih =>
    rcases List.mem_append.mp h with hmem | hmem
    · exact ⟨expects, following, token, List.mem_cons_self, hmem⟩
    · obtain ⟨expects, behind, source, hsource, hmem⟩ := ih hmem
      exact ⟨expects, behind, source, List.mem_cons_of_mem _ hsource, hmem⟩

theorem intake_operator? (expects : Bool) (following : List Token) (token : Token) :
    Yard.intake (fun token => (token.operator?.toList : Multiset Operator)) expects following
      token = (operatorsOf expects following token : Multiset Operator) := by
  cases token with
  | digit d => simp [Yard.intake, Yard.numberIntake, operatorsOf, Token.operator?, apply_ite]
  | point => simp [Yard.intake, Yard.numberIntake, operatorsOf, Token.operator?, apply_ite]
  | operator op =>
    -- Both sides ask for the same token behind the sign.
    unfold Yard.intake Yard.signIntake operatorsOf
    dsimp only
    split
    · split
      · rfl
      · split <;> rfl
    · rfl
  | _ => rfl

theorem intake_fn? (expects : Bool) (following : List Token) (token : Token) :
    Yard.intake (fun token => (token.fn?.toList : Multiset Fn)) expects following token =
      (token.fn?.toList : Multiset Fn) := by
  cases token with
  | digit d => simp [Yard.intake, Yard.numberIntake, Token.fn?]
  | point => simp [Yard.intake, Yard.numberIntake, Token.fn?]
  | operator op => simp [Yard.intake, Yard.signIntake, Token.fn?]
  | _ => rfl

theorem collect_fn? (expects : Bool) (tokens : List Token) :
    collect (fun _ _ token => token.fn?.toList) expects tokens = tokens.filterMap Token.fn? := by
  induction tokens generalizing expects with
  | nil => rfl
  | cons token following ih =>
    rw [collect, ih, ← filterMap_singleton, ← List.filterMap_append]
    rfl

/-- An operand is a part of a number or the token itself, which is no parenthesis then. -/
theorem mem_operandsOf {expects : Bool} {following : List Token} {token operand : Token}
    (h : operand ∈ operandsOf expects following token) :
    isOfNumber operand ∨ operand = token ∧ token.isBracket = false := by
  cases token with
  | digit d =>
    refine .inl (List.all_eq_true.mp ?_ operand h)
    rw [operandsOf]
    split <;> rfl
  | point =>
    refine .inl (List.all_eq_true.mp ?_ operand h)
    rw [operandsOf]
    split <;> rfl
  | operator op =>
    refine .inl (List.all_eq_true.mp ?_ operand h)
    rw [operandsOf]
    split
    · dsimp only
      split
      · rfl
      · split <;> rfl
    · rfl
  | negative | literal n | constant c | var => exact .inr ⟨List.mem_singleton.mp h, rfl⟩
  | _ => cases h

/-- Reordering loses, doubles and swaps no operand, and accounts for every operator and every
function.

Signs in front of a number and numbers in front of an operand are no exceptions: `operandsOf` and
`operatorsOf` say what stands for them. -/
theorem flat_ofInfix {tokens out : List Token} (h : ofInfix tokens = .ok out) :
    operands out = collect operandsOf true tokens ∧
      ((flat out).filterMap Token.operator?).Perm (collect operatorsOf true tokens) ∧
      ((flat out).filterMap Token.fn?).Perm (tokens.filterMap Token.fn?) ∧
      ∀ token ∈ flat out, token.isBracket = false := by
  have hoperands := operands_ofInfix h
  refine ⟨hoperands, filterMap_flat_ofInfix _ intake_operator? h, ?_, ?_⟩
  · rw [← collect_fn? true tokens]
    exact filterMap_flat_ofInfix _ intake_fn? h
  · intro token hmem
    -- A parenthesis is not applied to others, so it would have to be an operand.
    cases happlied : token.isApplied with
    | true => cases token <;> first | rfl | cases happlied
    | false =>
      have hoperand : token ∈ collect operandsOf true tokens := by
        rw [← hoperands, operands, List.mem_filter]
        exact ⟨hmem, by rw [happlied]; rfl⟩
      obtain ⟨expects, following, source, -, hsource⟩ := mem_collect hoperand
      rcases mem_operandsOf hsource with hnumber | ⟨rfl, hbracket⟩
      · cases token <;> first | rfl | cases hnumber
      · exact hbracket

/-- A sign without a number, a number that multiplies a function, and an operator between both. -/
theorem flat_ofInfix_sign_coefficient :
    let tokens : List Token := [.operator .sub, .var, .operator .add, .digit 2, .fn .sin [],
      .openCall, .digit 3, .closeCall]
    let out : List Token := [.negative, .digit 1, .space, .var, .operator .mul, .digit 2, .space,
      .fn .sin [.digit 3, .space], .operator .mul, .operator .add]
    ofInfix tokens = .ok out ∧
      operands out = [.negative, .digit 1, .space, .var, .digit 2, .space, .digit 3, .space] ∧
      ((flat out).filterMap Token.operator?).Perm [.mul, .add, .mul] ∧
      ((flat out).filterMap Token.fn?).Perm [.sin] ∧
      ∀ token ∈ flat out, token.isBracket = false := by
  intro tokens out
  have h : ofInfix tokens = .ok out := by cbv
  exact ⟨h, flat_ofInfix h⟩

end ReversePolish

end Calculator
