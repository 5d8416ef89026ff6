import Calculator.Proofs.Lexer.Spelling
import Calculator.Proofs.ReversePolish.Operands
import Calculator.Proofs.ReversePolish.Outputs

/-!
# What reordering leaves in order

Reordering moves operators, and functions behind their arguments.  Two things stay where
they are.

* The digits.  `digits` leaves out everything else of a list, and `digitsIn` says what
  each token of a formula adds to the digits, signs included.  By `digits_ofInfix` both
  are the same, since digits are operands.
* The brackets.  `Yard.opened` are the brackets that a state has open, and by
  `foldlM_bracket_ofInfix` all brackets of a formula match once it is put into reverse
  Polish order.
-/

namespace Calculator.ReversePolish

/-! ## Digits -/

mutual

/-- The parts of numbers in a token: itself, or those in its argument. -/
def digitsToken : Token → List Token
  | .fn _ arg => digits arg
  | token => if isOfNumber token then [token] else []

/-- The parts of numbers in a list, at every depth. -/
def digits : List Token → List Token
  | [] => []
  | token :: tokens => digitsToken token ++ digits tokens

end

theorem digits_append (tokens more : List Token) :
    digits (tokens ++ more) = digits tokens ++ digits more := by
  induction tokens with
  | nil => rfl
  | cons token tokens ih => rw [List.cons_append, digits, digits, ih, List.append_assoc]

/-- A number is nothing but digits. -/
theorem digits_of_isOfNumber {tokens : List Token} (h : ∀ token ∈ tokens, isOfNumber token) :
    digits tokens = tokens := by
  induction tokens with
  | nil => rfl
  | cons token tokens ih =>
    obtain ⟨htoken, htokens⟩ := List.forall_mem_cons.mp h
    have hdigits : digitsToken token = [token] := by
      cases token <;> first | rfl | cases htoken
    rw [digits, hdigits, ih htokens]
    rfl

mutual

theorem digitsToken_eq_filter (token : Token) :
    digitsToken token = (flatToken token).filter isOfNumber := by
  cases token with
  | fn f arg =>
    have hfn : [Token.fn f []].filter isOfNumber = [] := rfl
    rw [digitsToken, flatToken, digits_eq_filter arg, List.filter_append, hfn, List.append_nil]
  | _ => rfl

/-- The digits are those of the flat list. -/
theorem digits_eq_filter (tokens : List Token) : digits tokens = (flat tokens).filter isOfNumber := by
  cases tokens with
  | nil => rfl
  | cons token tokens =>
    rw [digits, flat, digitsToken_eq_filter token, digits_eq_filter tokens, List.filter_append]

end

/-- Digits are operands. -/
theorem filter_operands (tokens : List Token) :
    (operands tokens).filter isOfNumber = digits tokens := by
  rw [operands, List.filter_filter, digits_eq_filter]
  apply List.filter_congr
  intro token _
  cases token <;> rfl

namespace Yard

/-- What a token adds to the digits: a space at the end of a number, and the `-1` of a sign. -/
def digitsOf (expects : Bool) (following : List Token) : Token → List Token
  | .operator op =>
    if op = .sub ∧ expects then
      let next := following.find? fun token => !token.isSpace
      if next.any Token.isNumberPart then [.negative]
      else if next.any Token.startsFactor then [.negative, .digit ⟨1, one_lt_ten⟩, .space]
      else []
    else []
  | token =>
    if token.isNumberPart then
      if following.head?.any Token.isNumberPart then [token] else [token, .space]
    else []

/-- What the tokens of a formula add to the digits. -/
def digitsIn (expects : Bool) : List Token → List Token
  | [] => []
  | token :: following =>
    digitsOf expects following token ++
      digitsIn (if token.isSpace then expects else token.awaitsOperand) following

/-- The parts of a number are its digits, with a space behind. -/
theorem digitsIn_parts {parts more : List Token} (hparts : ∀ token ∈ parts, token.isNumberPart)
    (hne : parts ≠ []) (hmore : more.head?.any Token.isNumberPart = false) (expects : Bool) :
    digitsIn expects (parts ++ more) = parts ++ .space :: digitsIn false more := by
  induction parts generalizing expects with
  | nil => exact absurd rfl hne
  | cons part parts ih =>
    obtain ⟨hpart, hparts⟩ := List.forall_mem_cons.mp hparts
    have hof : ∀ following, digitsOf expects following part =
        if following.head?.any Token.isNumberPart then [part] else [part, .space] := by
      intro following
      cases part <;> first | rfl | cases hpart
    have hflags : part.isSpace = false ∧ part.awaitsOperand = false := by
      cases part <;> first | exact ⟨rfl, rfl⟩ | cases hpart
    rw [List.cons_append, digitsIn, hof, hflags.1, hflags.2]
    cases parts with
    | nil =>
      rw [List.nil_append, hmore]
      rfl
    | cons next parts =>
      have hnext : next.isNumberPart := hparts next (by simp)
      rw [if_pos (by simpa using hnext), if_neg Bool.false_ne_true, ih hparts (by simp)]
      rfl

/-- The digits among the operands that a token stands for. -/
theorem filter_operandsOf (expects : Bool) (following : List Token) {token : Token}
    (hread : isRead token) :
    (operandsOf expects following token).filter isOfNumber =
      digitsOf expects following token := by
  cases token with
  | digit d =>
    unfold operandsOf digitsOf
    dsimp only [Token.isNumberPart]
    split <;> rfl
  | point =>
    unfold operandsOf digitsOf
    dsimp only [Token.isNumberPart]
    split <;> rfl
  | operator op =>
    rw [operandsOf, digitsOf]
    split
    · dsimp only
      split
      · rfl
      · split <;> rfl
    · rfl
  | negative => cases hread
  | literal n => cases hread
  | _ => rfl

theorem filter_collect {tokens : List Token} (hread : ∀ token ∈ tokens, isRead token)
    (expects : Bool) : (collect operandsOf expects tokens).filter isOfNumber =
      digitsIn expects tokens := by
  induction tokens generalizing expects with
  | nil => rfl
  | cons token following ih =>
    obtain ⟨htoken, hfollowing⟩ := List.forall_mem_cons.mp hread
    rw [collect, digitsIn, List.filter_append, filter_operandsOf expects following htoken,
      ih hfollowing]

end Yard

/-- Reordering leaves the digits in the order in which they are written. -/
theorem digits_ofInfix {tokens out : List Token} (h : ofInfix tokens = .ok out)
    (hread : ∀ token ∈ tokens, Yard.isRead token) : digits out = Yard.digitsIn true tokens := by
  rw [← filter_operands, operands_ofInfix h, Yard.filter_collect hread]

/-- Numbers that can be read, each with its sign in front and a space behind. -/
inductive Numbers : List Token → Prop where
  | nil : Numbers []
  | number (n : SignedNumber) {tokens : List Token} (tail : Numbers tokens) :
      Numbers (n.tokens ++ .space :: tokens)

theorem Numbers.append {tokens more : List Token} (h : Numbers tokens) (hmore : Numbers more) :
    Numbers (tokens ++ more) := by
  induction h with
  | nil => exact hmore
  | number n _ ih =>
    rw [List.append_assoc]
    exact .number n ih

/-- The digits of a list that has been joined are those of its numbers. -/
theorem Joined.numbers {apart joined : List Token} (h : Joined apart joined) :
    Numbers (digits apart) := by
  induction h with
  | nil => exact .nil
  | number n _ ih =>
    rw [digits_append, digits_of_isOfNumber fun _ => isOfNumber_of_mem_tokens]
    exact .number n ih
  | @symbol token htoken apart _ _ ih =>
    have hnone : digitsToken token = [] := by
      cases token <;> first | rfl | cases htoken
    rw [digits, hnone]
    exact ih
  | fn f _ _ iharg ih => exact iharg.append ih

theorem append_space_inj {tokens more rest other : List Token} (htokens : Token.space ∉ tokens)
    (hmore : Token.space ∉ more) (h : tokens ++ .space :: rest = more ++ .space :: other) :
    tokens = more ∧ rest = other := by
  induction tokens generalizing more with
  | nil =>
    cases more with
    | nil => exact ⟨rfl, (List.cons.inj h).2⟩
    | cons token more =>
      have htoken : .space = token := (List.cons.inj h).1
      exact absurd List.mem_cons_self (htoken ▸ hmore)
  | cons token tokens ih =>
    cases more with
    | nil =>
      have htoken : token = .space := (List.cons.inj h).1
      exact absurd List.mem_cons_self (htoken ▸ htokens)
    | cons next more =>
      obtain ⟨rfl, htail⟩ := List.cons.inj h
      obtain ⟨rfl, rfl⟩ := ih (fun hmem => htokens (List.mem_cons_of_mem _ hmem))
        (fun hmem => hmore (List.mem_cons_of_mem _ hmem)) htail
      exact ⟨rfl, rfl⟩

/-- The first number ends at the first space. -/
theorem Numbers.exists_of_append {negative : Bool} {parts tokens : List Token}
    (hparts : ∀ token ∈ parts, token.isNumberPart)
    (h : Numbers (Token.sign negative ++ parts ++ .space :: tokens)) :
    ∃ n : PlainNumber, n.tokens = parts ∧ Numbers tokens := by
  generalize hall : Token.sign negative ++ parts ++ .space :: tokens = all at h
  cases h with
  | nil => simp at hall
  | @number n rest tail =>
    have hspace : Token.space ∉ n.tokens :=
      space_not_mem_number fun _ => PlainNumber.isNumberPart_of_mem_tokens
    have hother : Token.space ∉ Token.sign negative ++ parts := space_not_mem_number hparts
    obtain ⟨hrow, rfl⟩ := append_space_inj hother hspace hall
    refine ⟨n.magnitude, ?_, tail⟩
    -- Only one of both rows may have a sign if both have the same tokens.
    rw [SignedNumber.tokens] at hrow
    cases negative <;> cases hnegative : n.negative <;>
      simp only [hnegative, Token.sign, Bool.false_eq_true, if_false, if_true, List.nil_append,
        List.singleton_append] at hrow
    · exact hrow.symm
    · exact absurd (hparts .negative (by simp [hrow])) Bool.false_ne_true
    · have hsign : Token.negative ∈ n.magnitude.tokens := by simp [← hrow]
      exact absurd (PlainNumber.isNumberPart_of_mem_tokens hsign) Bool.false_ne_true
    · exact (List.cons.inj hrow).2.symm

/-! ## Brackets -/

namespace Yard

/-- The groups on a stack. -/
def groups (held : List Held) : List Token.Opened :=
  held.filterMap fun
    | .operator _ => none
    | .group => some .group

/-- The brackets that a state has open, the latest first. -/
def opened (yard : Yard) : List Token.Opened :=
  groups yard.held ++ yard.outer.flatMap fun held => .call :: groups held

theorem groups_splitHeld (goesOn : Operator → Bool) (held : List Held) :
    groups (splitHeld goesOn held).2 = groups held := by
  induction held with
  | nil => rfl
  | cons top held ih =>
    cases top with
    | group => rfl
    | operator op =>
      unfold splitHeld
      split
      · exact ih
      · rfl

@[simp] theorem opened_putAll (yard : Yard) (tokens : List Token) :
    (yard.putAll tokens).opened = yard.opened := by
  unfold putAll
  split <;> rfl

@[simp] theorem opened_put (yard : Yard) (token : Token) :
    (yard.put token).opened = yard.opened := by
  rw [← putAll_singleton, opened_putAll]

@[simp] theorem opened_hold (yard : Yard) (op : Operator) :
    (yard.hold op).opened = yard.opened := rfl

@[simp] theorem opened_release (yard : Yard) (goesOn : Operator → Bool) :
    (yard.release goesOn).opened = yard.opened := by
  rw [release_eq, opened_putAll, opened, groups_splitHeld]
  rfl

@[simp] theorem opened_takeOperator (yard : Yard) (op : Operator) :
    (yard.takeOperator op).opened = yard.opened := by
  rw [takeOperator, opened_hold, opened_release]

@[simp] theorem opened_applyCoefficient (yard : Yard) :
    yard.applyCoefficient.opened = yard.opened := by
  unfold applyCoefficient
  split <;> rfl

theorem opened_takeNumberPart (yard : Yard) (token : Token) (following : List Token) :
    (yard.takeNumberPart token following).opened = yard.opened := by
  unfold takeNumberPart
  dsimp only
  split <;> simp [opened_put] <;> rfl

theorem opened_takeSign (yard : Yard) (following : List Token) :
    (yard.takeSign following).opened = yard.opened := by
  unfold takeSign
  dsimp only
  split
  · simp
  · split <;> simp

/-- A step opens and closes the bracket that its token is. -/
theorem bracket_step {yard after : Yard} {token : Token} {following : List Token}
    (h : yard.step token following = .ok after) :
    Token.bracket yard.opened token = some after.opened := by
  rcases step_eq_ok_iff.mp h with ⟨rfl, rfl⟩ | ⟨-, next, hnext, rfl⟩
  · rfl
  · show Token.bracket yard.opened token = some next.opened
    cases token with
    | digit d =>
      cases hnext
      rw [opened_takeNumberPart]
      rfl
    | point =>
      cases hnext
      rw [opened_takeNumberPart]
      rfl
    | operator op =>
      cases hnext
      split
      · rw [opened_takeSign]
        rfl
      · rw [opened_takeOperator]
        rfl
    | openGroup =>
      cases hnext
      rw [← opened_applyCoefficient yard]
      rfl
    | openCall =>
      cases hnext
      rfl
    | closeGroup =>
      obtain ⟨held, hheld, rfl⟩ := closeGroup_eq_ok_iff.mp hnext
      have hopened : yard.opened = .group :: Yard.opened { yard.releaseAll with held := held } := by
        rw [← opened_release yard fun _ => true, ← releaseAll, opened, hheld]
        rfl
      rw [hopened]
      rfl
    | closeCall =>
      obtain ⟨held, outer, f, arg, calls, hheld, houter, -, rfl⟩ :=
        closeCall_eq_ok_iff.mp hnext
      have hopened : yard.opened =
          .call :: Yard.opened { yard.releaseAll with held, outer, calls } := by
        rw [← opened_release yard fun _ => true, ← releaseAll, opened, hheld, houter]
        rfl
      rw [hopened, opened_put]
      rfl
    | fn f arg =>
      cases hnext
      rw [← opened_applyCoefficient yard]
      rfl
    | _ =>
      cases hnext
      simp [Token.bracket]

theorem foldlM_bracket_run {tokens : List Token} {yard after : Yard}
    (h : yard.run tokens = .ok after) :
    tokens.foldlM Token.bracket yard.opened = some after.opened := by
  induction tokens generalizing yard with
  | nil =>
    cases h
    rfl
  | cons token following ih =>
    rw [run] at h
    split at h
    · rename_i next hstep
      rw [List.foldlM_cons, bracket_step hstep]
      exact ih h
    · cases h

end Yard

/-- A formula can be put into reverse Polish order only if all its brackets match. -/
theorem foldlM_bracket_ofInfix {tokens out : List Token} (h : ofInfix tokens = .ok out) :
    tokens.foldlM Token.bracket [] = some [] := by
  obtain ⟨yard, hrun, hresult⟩ := ofInfix_eq_ok_iff.mp h
  obtain ⟨hheld, houter, -, -⟩ := Yard.result_eq_ok_iff.mp hresult
  have hopened : yard.opened = [] := by
    rw [← Yard.opened_release yard fun _ => true, ← Yard.releaseAll, Yard.opened, hheld, houter]
    rfl
  have hbrackets := Yard.foldlM_bracket_run hrun
  rw [hopened] at hbrackets
  exact hbrackets

end Calculator.ReversePolish
