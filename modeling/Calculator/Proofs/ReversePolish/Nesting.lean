import Calculator.Proofs.Formula.Stages
import Calculator.Proofs.ReversePolish.Order

/-!
# When reordering refuses

Reordering refuses a list of tokens for its brackets alone.  `Nesting` counts the brackets that
are open, and nothing else of a list: not which function an argument belongs to, and no operand
or operator.

* `Nesting.next` is what a token does to the counts, or `none` if it closes something that is
  not open.  `Nesting.Closes` says of a list that all it opens is closed.
* `Yard.nesting` counts the brackets of a state.  By `Yard.nesting_step` each step does to the
  counts what its token does, and fails where the token cannot; by `Yard.nesting_run` so does a
  run.
* In the tokens of a text every argument is closed, so there only the groups count.
  `Nesting.ofOpened` are the counts of brackets whose kinds are known, and
  `Nesting.foldlM_next_ofOpened` that the tokens of a text keep to it.

`ofInfix_refuses_iff` puts both together.
-/

namespace Calculator.ReversePolish

open Outcomes (map_eq_ok_iff orMalformed orMalformed_eq_error_iff orMalformed_eq_ok_iff)

/-! ## Counting brackets -/

/-- How many brackets are open. -/
structure Nesting where
  /-- The groups that are open in the innermost scope. -/
  groups : Nat := 0
  /-- The groups that are open in each of the enclosing scopes, innermost first. -/
  outer : List Nat := []
  /-- The functions whose argument is open. -/
  calls : Nat := 0
  deriving DecidableEq

namespace Nesting

/-- The brackets that are open behind a token.  A function counts from its name on, and a scope
from the bracket behind the name.  A scope can be closed if no group is open in it, another scope
encloses it and there is a function to be closed with it. -/
def next (nesting : Nesting) : Token → Option Nesting
  | .fn _ _ => some { nesting with calls := nesting.calls + 1 }
  | .openCall => some { nesting with groups := 0, outer := nesting.groups :: nesting.outer }
  | .openGroup => some { nesting with groups := nesting.groups + 1 }
  | .closeGroup =>
    match nesting.groups with
    | 0 => none
    | groups + 1 => some { nesting with groups }
  | .closeCall =>
    match nesting with
    | ⟨0, groups :: outer, calls + 1⟩ => some ⟨groups, outer, calls⟩
    | _ => none
  | _ => some nesting

/-- Whether a list closes all brackets that it opens, and no others. -/
def Closes (tokens : List Token) : Prop := tokens.foldlM next {} = some {}

instance (tokens : List Token) : Decidable (Closes tokens) :=
  inferInstanceAs (Decidable (tokens.foldlM next {} = some {}))

end Nesting

/-! ## The brackets of the yard -/

namespace Yard

/-- What is left on a stack once its operators have gone on is empty or begins with a group. -/
theorem splitHeld_all_cases (held : List Held) :
    (splitHeld (fun _ => true) held).2 = [] ∨
      ∃ rest, (splitHeld (fun _ => true) held).2 = .group :: rest := by
  induction held with
  | nil => exact .inl rfl
  | cons top held ih =>
    cases top with
    | group => exact .inr ⟨held, rfl⟩
    | operator op =>
      rw [splitHeld, if_pos rfl]
      exact ih

theorem held_putAll (yard : Yard) (tokens : List Token) :
    (yard.putAll tokens).held = yard.held := by
  unfold putAll
  split <;> rfl

theorem held_releaseAll_cases (yard : Yard) :
    yard.releaseAll.held = [] ∨ ∃ held, yard.releaseAll.held = .group :: held := by
  rw [releaseAll, release_eq, held_putAll]
  exact splitHeld_all_cases yard.held

/-- The brackets that are open in a state. -/
def nesting (yard : Yard) : Nesting where
  groups := (groups yard.held).length
  outer := yard.outer.map fun held => (groups held).length
  calls := yard.calls.length

@[simp] theorem nesting_putAll (yard : Yard) (tokens : List Token) :
    (yard.putAll tokens).nesting = yard.nesting := by
  unfold putAll
  split
  · rfl
  · rename_i hcalls
    simp [nesting, hcalls]

@[simp] theorem nesting_put (yard : Yard) (token : Token) :
    (yard.put token).nesting = yard.nesting := by
  rw [← putAll_singleton, nesting_putAll]

@[simp] theorem nesting_hold (yard : Yard) (op : Operator) :
    (yard.hold op).nesting = yard.nesting := rfl

@[simp] theorem nesting_release (yard : Yard) (goesOn : Operator → Bool) :
    (yard.release goesOn).nesting = yard.nesting := by
  rw [release_eq, nesting_putAll, nesting, groups_splitHeld]
  rfl

@[simp] theorem nesting_releaseAll (yard : Yard) : yard.releaseAll.nesting = yard.nesting :=
  nesting_release yard _

@[simp] theorem nesting_takeOperator (yard : Yard) (op : Operator) :
    (yard.takeOperator op).nesting = yard.nesting := by
  rw [takeOperator, nesting_hold, nesting_release]

@[simp] theorem nesting_applyCoefficient (yard : Yard) :
    yard.applyCoefficient.nesting = yard.nesting := by
  unfold applyCoefficient
  split <;> rfl

@[simp] theorem nesting_takeNumberPart (yard : Yard) (token : Token) (following : List Token) :
    (yard.takeNumberPart token following).nesting = yard.nesting := by
  unfold takeNumberPart
  dsimp only
  split <;> simp <;> rfl

@[simp] theorem nesting_takeSign (yard : Yard) (following : List Token) :
    (yard.takeSign following).nesting = yard.nesting := by
  unfold takeSign
  dsimp only
  split
  · simp
  · split <;> simp

/-- A group is closed exactly if one is open in the innermost scope. -/
theorem nesting_closeGroup (yard : Yard) :
    nesting <$> yard.closeGroup = orMalformed (yard.nesting.next .closeGroup) := by
  rw [← nesting_releaseAll, closeGroup]
  rcases held_releaseAll_cases yard with hheld | ⟨held, hheld⟩
  · simp only [hheld, nesting]
    rfl
  · simp only [hheld, nesting]
    rfl

/-- An argument is closed exactly if no group is open in its scope, and there is a scope around
it and a function. -/
theorem nesting_closeCall (yard : Yard) :
    nesting <$> yard.closeCall = orMalformed (yard.nesting.next .closeCall) := by
  rw [← nesting_releaseAll, closeCall]
  rcases held_releaseAll_cases yard with hheld | ⟨held, hheld⟩
  · cases houter : yard.releaseAll.outer with
    | nil =>
      simp only [hheld, houter, nesting]
      rfl
    | cons next outer =>
      cases hcalls : yard.releaseAll.calls with
      | nil =>
        simp only [hheld, houter, hcalls, nesting]
        rfl
      | cons call calls =>
        simp only [hheld]
        rw [nesting, hheld, houter, hcalls]
        exact congrArg Except.ok (nesting_put _ _)
  · simp only [hheld, nesting]
    rfl

/-- A step does to the brackets what its token does, and fails for no other reason. -/
theorem nesting_step (yard : Yard) (token : Token) (following : List Token) :
    nesting <$> yard.step token following = orMalformed (yard.nesting.next token) := by
  have htake : nesting <$> yard.take following token = orMalformed (yard.nesting.next token) := by
    cases token with
    | closeGroup => exact nesting_closeGroup yard
    | closeCall => exact nesting_closeCall yard
    | operator op =>
      rw [take]
      split
      · exact congrArg Except.ok (nesting_takeSign yard following)
      · exact congrArg Except.ok (nesting_takeOperator yard op)
    | digit d => exact congrArg Except.ok (nesting_takeNumberPart yard _ following)
    | point => exact congrArg Except.ok (nesting_takeNumberPart yard _ following)
    | negative => exact congrArg Except.ok (nesting_put yard _)
    | literal n => exact congrArg Except.ok (nesting_put yard _)
    | constant c =>
      rw [← nesting_applyCoefficient]
      exact congrArg Except.ok (nesting_put _ _)
    | var =>
      rw [← nesting_applyCoefficient]
      exact congrArg Except.ok (nesting_put _ _)
    | fn f arg =>
      rw [← nesting_applyCoefficient]
      rfl
    | openGroup =>
      rw [← nesting_applyCoefficient]
      rfl
    | openCall => rfl
    | space => rfl
  rw [← htake, step]
  split
  · rename_i hspace
    cases token <;> first | rfl | cases hspace
  · cases yard.take following token <;> rfl

theorem nesting_run (yard : Yard) (tokens : List Token) :
    nesting <$> yard.run tokens = orMalformed (tokens.foldlM Nesting.next yard.nesting) := by
  induction tokens generalizing yard with
  | nil => rfl
  | cons token following ih =>
    have hstep := nesting_step yard token following
    rw [run, List.foldlM_cons]
    cases hnext : yard.nesting.next token with
    | none =>
      rw [hnext] at hstep
      cases htoken : yard.step token following with
      | ok after =>
        rw [htoken] at hstep
        cases hstep
      | error e =>
        rw [htoken] at hstep
        exact hstep
    | some nesting =>
      rw [hnext] at hstep
      obtain ⟨after, hafter, rfl⟩ := map_eq_ok_iff.mp hstep
      rw [hafter]
      exact ih after

/-- There is a result exactly if no bracket is open. -/
theorem exists_result_iff (yard : Yard) : (∃ out, yard.result = .ok out) ↔ yard.nesting = {} := by
  rw [← nesting_releaseAll]
  constructor
  · rintro ⟨out, hout⟩
    obtain ⟨hheld, houter, hcalls, -⟩ := result_eq_ok_iff.mp hout
    rw [nesting, hheld, houter, hcalls]
    rfl
  · intro hnesting
    obtain ⟨hgroups, houter, hcalls⟩ := Nesting.mk.inj hnesting
    refine ⟨_, result_eq_ok_iff.mpr ⟨?_, ?_, ?_, rfl⟩⟩
    · rcases held_releaseAll_cases yard with hheld | ⟨held, hheld⟩
      · exact hheld
      · rw [hheld] at hgroups
        cases hgroups
    · exact List.map_eq_nil_iff.mp houter
    · exact List.length_eq_zero_iff.mp hcalls

end Yard

/-- Reordering succeeds exactly on the lists whose brackets close. -/
theorem exists_ofInfix_iff (tokens : List Token) :
    (∃ out, ofInfix tokens = .ok out) ↔ Nesting.Closes tokens := by
  have hrun := Yard.nesting_run Yard.start tokens
  constructor
  · rintro ⟨out, hout⟩
    obtain ⟨yard, hyard, hresult⟩ := ofInfix_eq_ok_iff.mp hout
    have hclosed := map_eq_ok_iff.mpr ⟨yard, hyard, yard.exists_result_iff.mp ⟨out, hresult⟩⟩
    exact orMalformed_eq_ok_iff.mp (hrun.symm.trans hclosed)
  · intro hcloses
    obtain ⟨yard, hyard, hnesting⟩ :=
      map_eq_ok_iff.mp (hrun.trans (orMalformed_eq_ok_iff.mpr hcloses))
    obtain ⟨out, hout⟩ := yard.exists_result_iff.mpr hnesting
    exact ⟨out, ofInfix_eq_ok_iff.mpr ⟨yard, hyard, hout⟩⟩

/-- A bracket that opens the argument of no function. -/
example : ¬ Nesting.Closes [.openCall, .var, .closeCall] := by decide

/-- Whatever is wrong, the reason is the same. -/
theorem eq_malformed_of_ofInfix {tokens : List Token} {e : ReadError}
    (h : ofInfix tokens = .error e) : e = .malformed := by
  have hrun := Yard.nesting_run Yard.start tokens
  unfold ofInfix at h
  split at h
  · unfold Yard.result at h
    dsimp only at h
    split at h
    · cases h
    · cases h
      rfl
  · rename_i hyard
    cases h
    rw [hyard] at hrun
    exact (orMalformed_eq_error_iff.mp hrun.symm).2

/-! ## The brackets of a text -/

open Token (Opened bracket unmark)

/-- Lists in which every function has the bracket of its argument directly behind it, and no other
token has one behind it. -/
inductive Paired : List Token → Prop where
  | nil : Paired []
  | single {token : Token} (hfn : token.isFn = false) (hopen : token ≠ .openCall)
      {tokens : List Token} (tail : Paired tokens) : Paired (token :: tokens)
  | call (f : Fn) (arg : List Token) {tokens : List Token} (tail : Paired tokens) :
      Paired (.fn f arg :: .openCall :: tokens)

/-- Marks make no difference. -/
theorem Paired.of_unmark {tokens : List Token} (h : Paired (tokens.map unmark)) :
    Paired tokens := by
  generalize hread : tokens.map unmark = read at h
  induction h generalizing tokens with
  | nil =>
    rw [List.map_eq_nil_iff.mp hread]
    exact .nil
  | @single token hfn hopen read _ ih =>
    obtain ⟨first, rest, rfl, rfl, hrest⟩ := List.map_eq_cons_iff.mp hread
    refine .single ?_ ?_ (ih hrest)
    · cases first <;> first | rfl | cases hfn
    · rintro rfl
      exact hopen rfl
  | @call f arg read _ ih =>
    obtain ⟨first, rest, rfl, hfirst, hrest⟩ := List.map_eq_cons_iff.mp hread
    obtain ⟨second, more, rfl, hsecond, hmore⟩ := List.map_eq_cons_iff.mp hrest
    cases first with
    | fn g arg' =>
      cases second with
      | openCall => exact .call g arg' (ih hmore)
      | _ => cases hsecond
    | _ => cases hfirst

/-- The lexer gives out the bracket of an argument directly behind a function, and nowhere else. -/
theorem paired_of_reads {M : Type → Type} [NameTable M] {names : M Fn} {cs : List Char}
    {read : List Token} (h : Lexer.Reads names cs read) : Paired read := by
  induction h with
  | nil => exact .nil
  | @cons c cs rest token tokens hfirst _ ih =>
    rcases Lexer.isSingle_or_isFn_of_first? hfirst with hsingle | hfn
    · have hfn : token.isFn = false := by
        cases token <;> first | rfl | cases hsingle
      rw [Token.withCall, hfn]
      refine .single hfn ?_ ih
      rintro rfl
      cases hsingle
    · cases token with
      | fn f arg => exact .call f arg ih
      | _ => cases hfn

namespace Nesting

/-- The counts of brackets whose kinds are known, the latest first. -/
def ofOpened : List Opened → Nesting
  | [] => {}
  | .group :: opened => { ofOpened opened with groups := (ofOpened opened).groups + 1 }
  | .call :: opened =>
    ⟨0, (ofOpened opened).groups :: (ofOpened opened).outer, (ofOpened opened).calls + 1⟩

theorem next_ofOpened {token : Token} (hfn : token.isFn = false) (hopen : token ≠ .openCall)
    {opened after : List Opened} (h : bracket opened token = some after) :
    (ofOpened opened).next token = some (ofOpened after) := by
  cases token with
  | fn f arg => cases hfn
  | openCall => exact absurd rfl hopen
  | closeGroup =>
    rcases opened with _ | ⟨kind, opened⟩
    · cases h
    · cases kind <;> cases h
      rfl
  | closeCall =>
    rcases opened with _ | ⟨kind, opened⟩
    · cases h
    · cases kind <;> cases h
      rfl
  | _ =>
    cases h
    rfl

/-- Where every function has its bracket, the counts are those of the brackets alone. -/
theorem foldlM_next_ofOpened {tokens : List Token} (hpaired : Paired tokens)
    {opened left : List Opened} (h : tokens.foldlM bracket opened = some left) :
    tokens.foldlM next (ofOpened opened) = some (ofOpened left) := by
  induction hpaired generalizing opened with
  | nil =>
    cases h
    rfl
  | single hfn hopen _ ih =>
    rw [List.foldlM_cons] at h ⊢
    obtain ⟨after, hafter, hleft⟩ := Option.bind_eq_some_iff.mp h
    rw [next_ofOpened hfn hopen hafter]
    exact ih hleft
  | call f arg _ ih => exact ih h

/-- Without an open argument, only groups are open. -/
theorem ofOpened_of_call_not_mem {opened : List Opened} (h : Opened.call ∉ opened) :
    ofOpened opened = { groups := opened.count .group } := by
  induction opened with
  | nil => rfl
  | cons kind opened ih =>
    rw [List.mem_cons, not_or] at h
    cases kind with
    | call => exact absurd rfl h.1
    | group => rw [ofOpened, ih h.2, List.count_cons_self]

end Nesting

/-- The groups that are open in the end are those that have been opened and not closed. -/
theorem count_group_of_foldlM {tokens : List Token} {opened left : List Opened}
    (h : tokens.foldlM bracket opened = some left) :
    left.count .group + tokens.countP (· matches .closeGroup) =
      opened.count .group + tokens.countP (· matches .openGroup) := by
  induction tokens generalizing opened with
  | nil =>
    cases h
    rfl
  | cons token tokens ih =>
    rw [List.foldlM_cons] at h
    obtain ⟨after, hafter, hleft⟩ := Option.bind_eq_some_iff.mp h
    have hcount := ih hleft
    rw [List.countP_cons, List.countP_cons]
    cases token with
    | closeGroup =>
      rcases opened with _ | ⟨kind, opened⟩
      · cases hafter
      · cases kind <;> cases hafter
        rw [List.count_cons_self]
        simp only [Bool.false_eq_true, if_true, if_false]
        omega
    | closeCall =>
      rcases opened with _ | ⟨kind, opened⟩
      · cases hafter
      · cases kind <;> cases hafter
        exact hcount
    | openGroup =>
      cases hafter
      rw [List.count_cons_self] at hcount
      simp only [Bool.false_eq_true, if_true, if_false]
      omega
    | openCall =>
      cases hafter
      exact hcount
    | _ =>
      cases hafter
      exact hcount

/-- The brackets of a text close exactly if it has as many closing as opening brackets of groups:
no other can be left over once its arguments are marked. -/
theorem closes_iff_of_tokens {M : Type → Type} [NameTable M] {names : M Fn} {text : String}
    {tokens : List Token} (h : (Lexer.ofText names text).tokens = .ok tokens) :
    Nesting.Closes tokens ↔
      tokens.countP (· matches .openGroup) = tokens.countP (· matches .closeGroup) := by
  obtain ⟨hreads, left, hleft, hcall⟩ := Lexer.tokens_iff_reads.mp h
  have hpaired : Paired tokens := (paired_of_reads hreads).of_unmark
  have hnesting := Nesting.foldlM_next_ofOpened hpaired hleft
  have hcount := count_group_of_foldlM hleft
  rw [List.count_nil] at hcount
  rw [Nesting.ofOpened_of_call_not_mem hcall] at hnesting
  have hclosed : Nesting.Closes tokens ↔ left.count .group = 0 := by
    change tokens.foldlM Nesting.next (Nesting.ofOpened []) = some {} ↔ _
    rw [hnesting]
    simp
  rw [hclosed]
  omega

/-- Reordering refuses a list of tokens exactly if its brackets do not close, and always for the
same reason.  For the tokens of a text it is enough to count the brackets of groups. -/
theorem ofInfix_refuses_iff (tokens : List Token) :
    ((∃ out, ofInfix tokens = .ok out) ↔ Nesting.Closes tokens) ∧
      (ofInfix tokens = .error .malformed ↔ ¬ Nesting.Closes tokens) ∧
      ∀ {M : Type → Type} [NameTable M] (names : M Fn) (text : String),
        (Lexer.ofText names text).tokens = .ok tokens →
          ((∃ out, ofInfix tokens = .ok out) ↔
            tokens.countP (· matches .openGroup) = tokens.countP (· matches .closeGroup)) := by
  have hcloses := exists_ofInfix_iff tokens
  refine ⟨hcloses, ?_, ?_⟩
  · rw [← hcloses]
    cases hout : ofInfix tokens with
    | ok out => simp
    | error e =>
      rw [eq_malformed_of_ofInfix hout]
      simp
  · intro M _ names text htokens
    rw [hcloses, closes_iff_of_tokens htokens]

/-- The groups in an argument are closed, and the one around it is not. -/
theorem ofInfix_refuses_iff_open_group :
    ∃ tokens,
      ((Lexer.ofText standardNames "3(x-sin((2)+(1))").tokens = .ok tokens ∧
        tokens.countP (· matches .openGroup) = 3 ∧ tokens.countP (· matches .closeGroup) = 2) ∧
      ¬ Nesting.Closes tokens ∧ ofInfix tokens = .error .malformed := by
  have hok : (Lexer.ofText standardNames "3(x-sin((2)+(1))").tokens.isOk := by decide +kernel
  have hcounts : (Lexer.ofText standardNames "3(x-sin((2)+(1))").tokens.toOption.map (fun tokens =>
      (tokens.countP (· matches .openGroup), tokens.countP (· matches .closeGroup))) =
      some (3, 2) := by decide +kernel
  obtain ⟨tokens, htokens⟩ := Outcomes.exists_of_isOk hok
  rw [htokens] at hcounts
  obtain ⟨hopen, hclose⟩ := Prod.mk.inj (Option.some.inj hcounts)
  obtain ⟨hcloses, hrefused, htext⟩ := ofInfix_refuses_iff tokens
  have hnot : ¬ Nesting.Closes tokens := by
    rw [← hcloses, htext standardNames _ htokens, hopen, hclose]
    decide
  exact ⟨tokens, ⟨htokens, hopen, hclose⟩, hnot, hrefused.mpr hnot⟩

end Calculator.ReversePolish
