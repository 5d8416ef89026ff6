import Calculator.Proofs.Numeral.Plain
import Calculator.Proofs.ReversePolish.Steps
import Calculator.ReversePolish.Digits

/-!
# Numbers on their way through the stages

A number is a row of digits when it is read, a row of digits with its sign in front
and a space behind in reverse Polish order, and one literal in the end.

* `Yard.run_number`, `Yard.run_sign_number` and `Yard.run_sign_factor` are the runs
  over a whole number, over one with its sign, and over a sign without one.
* `Joined apart joined` says that `joined` has literals in the places of the numbers of
  `apart`.  `joinDigits_of_joined` says that joining does that.
-/

namespace Calculator.ReversePolish

namespace Yard

/-! ## White space -/

theorem run_spaces {spaces : List Token} (h : ∀ token ∈ spaces, token = .space) (yard : Yard)
    (rest : List Token) : yard.run (spaces ++ rest) = yard.run rest := by
  induction spaces with
  | nil => rfl
  | cons token spaces ih =>
    obtain ⟨rfl, hspaces⟩ := List.forall_mem_cons.mp h
    have hstep : yard.step .space (spaces ++ rest) = .ok yard := rfl
    rw [List.cons_append, run_cons_of_step hstep]
    exact ih hspaces

theorem find?_spaces {spaces : List Token} (h : ∀ token ∈ spaces, token = .space)
    (rest : List Token) :
    (spaces ++ rest).find? (fun token => !token.isSpace) =
      rest.find? fun token => !token.isSpace := by
  induction spaces with
  | nil => rfl
  | cons token spaces ih =>
    obtain ⟨rfl, hspaces⟩ := List.forall_mem_cons.mp h
    exact ih hspaces

/-! ## Numbers -/

theorem putAll_append (yard : Yard) (tokens more : List Token) :
    yard.putAll (tokens ++ more) = (yard.putAll more).putAll tokens := by
  induction tokens with
  | nil => rw [List.nil_append, putAll_nil]
  | cons token tokens ih => rw [List.cons_append, putAll_cons, putAll_cons, ih]

theorem putAll_singleton (yard : Yard) (token : Token) : yard.putAll [token] = yard.put token := by
  rw [putAll_cons, putAll_nil]

/-- What is put out does not depend on the flags of a state. -/
theorem putAll_flags (yard : Yard) (coefficient expectsOperand : Bool) (tokens : List Token) :
    ({ yard with coefficient, expectsOperand } : Yard).putAll tokens =
      { yard.putAll tokens with coefficient, expectsOperand } := by
  obtain ⟨output, calls, held, outer, _, _⟩ := yard
  cases calls <;> rfl

/-- The state after a number; `multiplies` says whether it multiplies the operand behind it. -/
def takeNumber (yard : Yard) (tokens : List Token) (multiplies : Bool) : Yard :=
  { yard.putAll (.space :: tokens.reverse) with
    coefficient := multiplies, expectsOperand := false }

theorem step_numberPart {token : Token} (htoken : token.isNumberPart) {yard : Yard}
    (hcoefficient : yard.coefficient = false) (following : List Token) :
    yard.step token following =
      .ok (if following.head?.any Token.isNumberPart then
        { yard.put token with expectsOperand := false }
      else yard.takeNumber [token] (following.head?.any Token.startsFactor)) := by
  have htake : yard.step token following =
      .ok { yard.takeNumberPart token following with expectsOperand := false } := by
    cases token with
    | digit d => rfl
    | point => rfl
    | _ => cases htoken
  rw [htake, takeNumberPart, hcoefficient, Bool.false_or]
  dsimp only
  split
  · rename_i hnumber
    have hfactor : following.head?.any Token.startsFactor = false := by
      cases following with
      | nil => rfl
      | cons next following =>
        cases next <;> first | rfl | cases hnumber
    rw [hfactor, ← hcoefficient]
  · obtain ⟨output, calls, held, outer, coefficient, expects⟩ := yard
    cases calls <;> rfl

/-- The parts of a number are put out with a space behind the last. -/
theorem run_number {tokens rest : List Token} (hne : tokens ≠ [])
    (hparts : ∀ token ∈ tokens, token.isNumberPart)
    (hrest : rest.head?.any Token.isNumberPart = false) {yard : Yard}
    (hcoefficient : yard.coefficient = false) :
    yard.run (tokens ++ rest) =
      (yard.takeNumber tokens (rest.head?.any Token.startsFactor)).run rest := by
  induction tokens generalizing yard with
  | nil => exact absurd rfl hne
  | cons token tokens ih =>
    obtain ⟨hpart, hparts⟩ := List.forall_mem_cons.mp hparts
    have hstep := step_numberPart hpart hcoefficient (tokens ++ rest)
    cases tokens with
    | nil =>
      rw [List.nil_append, hrest] at hstep
      exact run_cons_of_step hstep
    | cons next tokens =>
      have hnext : next.isNumberPart := hparts next (by simp)
      rw [if_pos (by simpa using hnext)] at hstep
      rw [List.cons_append, run_cons_of_step hstep,
        ih (List.cons_ne_nil _ _) hparts (by simpa using hcoefficient)]
      have hflags := putAll_flags (yard.put token) (yard.put token).coefficient false
      simp only [takeNumber, hflags]
      rw [List.reverse_cons (a := token), ← List.cons_append, putAll_append, putAll_singleton]

/-- A sign in front of a number is a part of it. -/
theorem run_sign_number {spaces tokens rest : List Token}
    (hspaces : ∀ token ∈ spaces, token = .space) (hne : tokens ≠ [])
    (hparts : ∀ token ∈ tokens, token.isNumberPart)
    (hrest : rest.head?.any Token.isNumberPart = false) {yard : Yard}
    (hcoefficient : yard.coefficient = false) (hexpects : yard.expectsOperand) :
    yard.run (.operator .sub :: spaces ++ (tokens ++ rest)) =
      (yard.takeNumber (.negative :: tokens) (rest.head?.any Token.startsFactor)).run rest := by
  obtain ⟨first, more, rfl⟩ := List.exists_cons_of_ne_nil hne
  have hfirst : first.isNumberPart := hparts first List.mem_cons_self
  have hspace : first.isSpace = false := by
    cases first <;> first | rfl | cases hfirst
  have hahead : (spaces ++ (first :: more ++ rest)).find? (fun token => !token.isSpace) =
      some first := by
    rw [find?_spaces hspaces, List.cons_append, List.find?_cons_of_pos (by simp [hspace])]
  have hstep : yard.step (.operator .sub) (spaces ++ (first :: more ++ rest)) =
      .ok { yard.put .negative with expectsOperand := true } := by
    refine step_eq_ok_iff.mpr (.inr ⟨rfl, _, rfl, ?_⟩)
    rw [if_pos ⟨rfl, hexpects⟩, takeSign, hahead, Option.any_some, if_pos hfirst]
    rfl
  have hflags := putAll_flags (yard.put .negative) (yard.put .negative).coefficient true
  rw [List.cons_append, run_cons_of_step hstep, run_spaces hspaces,
    run_number hne hparts hrest (by simpa using hcoefficient)]
  simp only [takeNumber, hflags]
  rw [List.reverse_cons (a := Token.negative), ← List.cons_append, putAll_append,
    putAll_singleton]

/-- A sign in front of any other operand is the number `-1`, which multiplies the operand. -/
theorem run_sign_factor {spaces rest : List Token} (hspaces : ∀ token ∈ spaces, token = .space)
    (hrest : rest.head?.any Token.startsFactor) {yard : Yard}
    (hcoefficient : yard.coefficient = false) (hexpects : yard.expectsOperand) :
    yard.run (.operator .sub :: spaces ++ rest) =
      Yard.run { (yard.takeNumber [.negative, .digit ⟨1, one_lt_ten⟩] true).applyCoefficient with
        expectsOperand := true } rest := by
  obtain ⟨first, more, rfl⟩ : ∃ first more, rest = first :: more := by
    cases rest with
    | nil => cases hrest
    | cons first more => exact ⟨first, more, rfl⟩
  have hfirst : first.startsFactor := hrest
  have hspace : first.isSpace = false := by
    cases first <;> first | rfl | cases hfirst
  have hnumber : first.isNumberPart = false := by
    cases first <;> first | rfl | cases hfirst
  have hahead : (spaces ++ first :: more).find? (fun token => !token.isSpace) = some first := by
    rw [find?_spaces hspaces, List.find?_cons_of_pos (by simp [hspace])]
  have hstep : yard.step (.operator .sub) (spaces ++ first :: more) =
      .ok { (yard.takeNumber [.negative, .digit ⟨1, one_lt_ten⟩] true).applyCoefficient with
        expectsOperand := true } := by
    refine step_eq_ok_iff.mpr (.inr ⟨rfl, _, rfl, ?_⟩)
    rw [if_pos ⟨rfl, hexpects⟩, takeSign, hahead, Option.any_some, Option.any_some, hnumber,
      if_neg Bool.false_ne_true, if_pos hfirst]
    obtain ⟨output, calls, held, outer, coefficient, expects⟩ := yard
    cases hcoefficient
    cases calls <;> rfl
  rw [List.cons_append, run_cons_of_step hstep, run_spaces hspaces]

end Yard

/-! ## Numbers joined to literals -/

/-- Whether a token is an operand or an operator by itself. -/
def isSymbol : Token → Bool
  | .literal _ | .constant _ | .var | .operator _ => true
  | _ => false

/-- `joined` has one literal in the place of each number of `apart`, also in the arguments of
functions. -/
inductive Joined : List Token → List Token → Prop where
  | nil : Joined [] []
  | number (n : SignedNumber) {apart joined : List Token} (tail : Joined apart joined) :
      Joined (n.tokens ++ .space :: apart) (.literal n.numeral :: joined)
  | symbol {token : Token} (htoken : isSymbol token) {apart joined : List Token}
      (tail : Joined apart joined) : Joined (token :: apart) (token :: joined)
  | fn (f : Fn) {apartArg joinedArg apart joined : List Token} (arg : Joined apartArg joinedArg)
      (tail : Joined apart joined) : Joined (.fn f apartArg :: apart) (.fn f joinedArg :: joined)

theorem Joined.append {apart joined apart' joined' : List Token} (h : Joined apart joined)
    (h' : Joined apart' joined') : Joined (apart ++ apart') (joined ++ joined') := by
  induction h with
  | nil => exact h'
  | number n _ ih =>
    rw [List.append_assoc]
    exact .number n ih
  | symbol htoken _ ih => exact .symbol htoken ih
  | fn f arg _ _ ih => exact .fn f arg ih

/-- The parts of a number are read as one text. -/
theorem joinFrom_number {tokens rest : List Token} (hne : tokens ≠ [])
    (hparts : ∀ token ∈ tokens, token.isNumberPart)
    (hrest : rest.head?.any Token.isNumberPart = false) (text : String) :
    joinFrom text (tokens ++ rest) = (do
      let number ← literal
        (text ++ String.ofList (tokens.flatMap fun token => token.spelling.toList))
      let rest ← joinFrom "" rest
      .ok (number :: rest)) := by
  induction tokens generalizing text with
  | nil => exact absurd rfl hne
  | cons token tokens ih =>
    obtain ⟨hpart, hparts⟩ := List.forall_mem_cons.mp hparts
    have hif : (token.isNumberPart || token.isNegative) = true := by simp [hpart]
    rw [List.cons_append, joinFrom, if_pos hif]
    cases tokens with
    | nil =>
      rw [List.nil_append, if_neg (by simp [hrest])]
      simp [String.ofList_toList]
    | cons next tokens =>
      have hnext : next.isNumberPart := hparts next (by simp)
      rw [if_pos (by simpa using hnext), ih (List.cons_ne_nil _ _) hparts]
      rw [List.flatMap_cons (x := token), String.ofList_append, String.ofList_toList,
        String.append_assoc]

/-- The sign of a number is read with it. -/
theorem joinFrom_signed (negative : Bool) {parts rest : List Token} (hne : parts ≠ [])
    (hparts : ∀ token ∈ parts, token.isNumberPart)
    (hrest : rest.head?.any Token.isNumberPart = false) :
    joinFrom "" (Token.sign negative ++ parts ++ rest) = (do
      let number ← literal ((if negative then "-" else "") ++
        String.ofList (parts.flatMap fun token => token.spelling.toList))
      let rest ← joinFrom "" rest
      .ok (number :: rest)) := by
  have hnumber := joinFrom_number hne hparts hrest
  cases negative with
  | false => rw [Token.sign, if_neg Bool.false_ne_true, List.nil_append, hnumber]; rfl
  | true =>
    obtain ⟨first, more, rfl⟩ := List.exists_cons_of_ne_nil hne
    have hsign : (Token.isNumberPart .negative || Token.isNegative .negative) = true := rfl
    have hfirst : (first :: more ++ rest).head?.any Token.isNumberPart := by
      simpa using hparts first List.mem_cons_self
    rw [Token.sign, if_pos rfl, List.append_assoc, List.singleton_append, joinFrom, if_pos hsign,
      if_pos hfirst, hnumber]
    rfl

/-- A space is dropped. -/
theorem joinFrom_space (text : String) (rest : List Token) :
    joinFrom text (.space :: rest) = joinFrom text rest := by
  simp [joinFrom, Token.isNumberPart, Token.isNegative, Token.isSpace]

/-- The space behind a number is dropped with it. -/
theorem joinFrom_sign (negative : Bool) {parts : List Token} (hne : parts ≠ [])
    (hparts : ∀ token ∈ parts, token.isNumberPart) (rest : List Token) :
    joinFrom "" (Token.sign negative ++ parts ++ .space :: rest) = (do
      let number ← literal ((if negative then "-" else "") ++
        String.ofList (parts.flatMap fun token => token.spelling.toList))
      let rest ← joinFrom "" rest
      .ok (number :: rest)) := by
  rw [joinFrom_signed negative hne hparts rfl, joinFrom_space]

theorem joinFrom_signedNumber (n : SignedNumber) (apart : List Token) :
    joinFrom "" (n.tokens ++ .space :: apart) = (do
      let rest ← joinFrom "" apart
      .ok (.literal n.numeral :: rest)) := by
  have hliteral : literal n.text = .ok (.literal n.numeral) := by
    rw [literal, n.ofText?_text]
  rw [SignedNumber.tokens, joinFrom_sign n.negative n.magnitude.tokens_ne_nil
      (fun _ => PlainNumber.isNumberPart_of_mem_tokens),
    PlainNumber.flatMap_spelling_tokens, ← n.text_eq, hliteral]
  rfl

theorem isSpaceFree_append (tokens more : List Token) :
    isSpaceFree (tokens ++ more) = (isSpaceFree tokens && isSpaceFree more) := by
  induction tokens with
  | nil => rfl
  | cons token tokens ih => rw [List.cons_append, isSpaceFree, isSpaceFree, ih, Bool.and_assoc]

/-- Whether a token is a part of a number in reverse Polish order, its sign and end included. -/
def isOfNumber (token : Token) : Bool := token.isNumberPart || token.isNegative || token.isSpace

/-- A number is made of its parts and its sign. -/
theorem isNumberPart_or_negative {negative : Bool} {parts : List Token}
    (hparts : ∀ token ∈ parts, token.isNumberPart) {token : Token}
    (h : token ∈ Token.sign negative ++ parts) : token.isNumberPart ∨ token = .negative := by
  rcases List.mem_append.mp h with hsign | hpart
  · rw [Token.sign] at hsign
    split at hsign
    · exact .inr (by simpa using hsign)
    · cases hsign
  · exact .inl (hparts token hpart)

theorem isOfNumber_of_mem {negative : Bool} {parts : List Token}
    (hparts : ∀ token ∈ parts, token.isNumberPart) {token : Token}
    (h : token ∈ Token.sign negative ++ parts) : isOfNumber token := by
  rcases isNumberPart_or_negative hparts h with hpart | rfl
  · rw [isOfNumber, hpart]
    rfl
  · rfl

theorem isOfNumber_of_mem_tokens {n : SignedNumber} {token : Token} (h : token ∈ n.tokens) :
    isOfNumber token :=
  isOfNumber_of_mem (fun _ => PlainNumber.isNumberPart_of_mem_tokens) h

/-- No number has a space inside. -/
theorem space_not_mem_number {negative : Bool} {parts : List Token}
    (hparts : ∀ token ∈ parts, token.isNumberPart) : Token.space ∉ Token.sign negative ++ parts := by
  intro hmem
  rcases isNumberPart_or_negative hparts hmem with hpart | hsign
  · cases hpart
  · cases hsign

theorem joinFrom_cons {token : Token} (htoken : isOfNumber token = false) (tokens : List Token) :
    joinFrom "" (token :: tokens) = (do
      let joined ← joinToken token
      let rest ← joinFrom "" tokens
      .ok (joined :: rest)) := by
  rw [isOfNumber, Bool.or_eq_false_iff] at htoken
  rw [joinFrom, if_neg (by simp [htoken.1]), if_neg (by simp [htoken.2])]

/-- A symbol stays what it is. -/
theorem joinFrom_symbol {token : Token} (htoken : isSymbol token) (tokens : List Token) :
    joinFrom "" (token :: tokens) = (do
      let rest ← joinFrom "" tokens
      .ok (token :: rest)) := by
  have hother : isOfNumber token = false ∧ joinToken token = .ok token := by
    cases token <;> first | exact ⟨rfl, rfl⟩ | cases htoken
  rw [joinFrom_cons hother.1, hother.2]
  rfl

theorem joinFrom_of_joined {apart joined : List Token} (h : Joined apart joined) :
    joinFrom "" apart = .ok joined ∧ (isSpaceFree apart → joined = apart) := by
  induction h with
  | nil => exact ⟨rfl, fun _ => rfl⟩
  | @number n apart joined _ ih =>
    refine ⟨?_, ?_⟩
    · rw [joinFrom_signedNumber, ih.1]
      rfl
    · intro hfree
      rw [isSpaceFree_append] at hfree
      simp [isSpaceFree, isSpaceFreeToken] at hfree
  | @symbol token htoken apart joined _ ih =>
    refine ⟨by rw [joinFrom_symbol htoken, ih.1]; rfl, ?_⟩
    intro hfree
    rw [isSpaceFree, Bool.and_eq_true] at hfree
    rw [ih.2 hfree.2]
  | @fn f apartArg joinedArg apart joined _ _ iharg ih =>
    refine ⟨?_, ?_⟩
    · have harg : joinToken (.fn f apartArg) = .ok (.fn f joinedArg) := by
        rw [joinToken]
        split
        · rename_i hfree
          rw [iharg.2 hfree]
        · rw [iharg.1]
          rfl
      rw [joinFrom_cons rfl, harg, ih.1]
      rfl
    · intro hfree
      rw [isSpaceFree, isSpaceFreeToken, Bool.and_eq_true] at hfree
      rw [iharg.2 hfree.1, ih.2 hfree.2]

/-- Joining puts a literal in the place of each number. -/
theorem joinDigits_of_joined {apart joined : List Token} (h : Joined apart joined) :
    joinDigits apart = .ok joined := by
  obtain ⟨hjoin, hfree⟩ := joinFrom_of_joined h
  unfold joinDigits
  split
  · rename_i hspace
    rw [hfree hspace]
  · exact hjoin

end Calculator.ReversePolish
