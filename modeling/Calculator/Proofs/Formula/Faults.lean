import Calculator.Proofs.Expr.PostOrder
import Calculator.Proofs.Formula.Stages
import Calculator.Proofs.ReversePolish.Blocks
import Calculator.Proofs.ReversePolish.Order

/-!
# The first number that cannot be read

Numbers are read when the digits of a formula are joined.  By then it is in reverse Polish
order, and an argument is joined where its function stands.  But the number that is
reported is the first one in the text, because reordering leaves the digits in order.

* `IsRow` are the rows of digits and points in a list, and `IsFaulty` says that a row is no
  number.  `FaultAt tokens n text` is such a row that begins at `n`.
* `Apart.faultsIn_digits_append`: what is come across in a list in reverse Polish order is
  what there is in its digits.
* `head?_faultsIn_digitsBehind`: what is come across first in the digits of a formula is the
  first row of it that is no number.  The induction goes along the formula, by whole rows.

`Formula.readWith_eq_badNumeral_iff` says this of texts.
-/

namespace Calculator

/-- Whether a token is a decimal point. -/
def Token.isPoint : Token → Bool
  | point => true
  | _ => false

namespace ReversePolish

/-! ## Rows of digits and points -/

/-- A row of digits and points in a list that is not a part of a longer one, with what is in front
of it and behind it. -/
structure IsRow (before row after : List Token) : Prop where
  ne_nil : row ≠ []
  parts : ∀ token ∈ row, token.isNumberPart
  begins : before.getLast?.any Token.isNumberPart = false
  ends : after.head?.any Token.isNumberPart = false

/-- Whether there is no digit in a row, or more than one point. -/
def IsFaulty (row : List Token) : Prop :=
  (∀ d, Token.digit d ∉ row) ∨ 1 < row.countP Token.isPoint

/-- Whether an operand has to come behind a list of tokens. -/
def expectsBehind (before : List Token) : Bool :=
  (before.reverse.find? fun token => !token.isSpace).all Token.awaitsOperand

/-- Whether the last token of a list, white space aside, is a `-` where an operand has to come. -/
def signBehind (before : List Token) : Bool :=
  match before.reverse.dropWhile Token.isSpace with
  | .operator .sub :: earlier => expectsBehind earlier.reverse
  | _ => false

/-- At the `n`th token begins a row that is no number, and it is written as `text` with its
sign. -/
def FaultAt (tokens : List Token) (n : Nat) (text : String) : Prop :=
  ∃ before row after, tokens = before ++ row ++ after ∧ before.length = n ∧
    IsRow before row after ∧ IsFaulty row ∧ text = numberText (signBehind before) row

theorem countP_isPoint_digits (digits : List (Fin 10)) :
    (digits.map Token.digit).countP Token.isPoint = 0 := by
  rw [List.countP_eq_zero]
  intro token hmem
  obtain ⟨d, -, rfl⟩ := List.mem_map.mp hmem
  exact Bool.false_ne_true

theorem not_isFaulty_tokens (n : PlainNumber) : ¬ IsFaulty n.tokens := by
  obtain ⟨whole, fraction, hasDigit⟩ := n
  have hdigit : ∀ {digits : List (Fin 10)} {row : List Token}, digits ≠ [] →
      (∀ token ∈ digits.map Token.digit, token ∈ row) → ∃ d, Token.digit d ∈ row := by
    intro digits row hne hrow
    obtain ⟨d, more, rfl⟩ := List.exists_cons_of_ne_nil hne
    exact ⟨d, hrow _ List.mem_cons_self⟩
  intro hfaulty
  cases fraction with
  | none =>
    rw [PlainNumber.tokens] at hfaulty
    rcases hfaulty with hnone | hpoints
    · obtain ⟨d, hmem⟩ := hdigit (hasDigit.resolve_right (by simp)) fun token => id
      exact hnone d hmem
    · rw [countP_isPoint_digits] at hpoints
      omega
  | some digits =>
    rw [PlainNumber.tokens] at hfaulty
    rcases hfaulty with hnone | hpoints
    · have hmem : ∃ d, Token.digit d ∈ whole.map Token.digit ++ .point :: digits.map .digit := by
        rcases hasDigit with hwhole | hfraction
        · exact hdigit hwhole fun token => List.mem_append_left _
        · apply hdigit hfraction
          intro token hmem
          exact List.mem_append_right _ (List.mem_cons_of_mem _ hmem)
      obtain ⟨d, hmem⟩ := hmem
      exact hnone d hmem
    · rw [List.countP_append, List.countP_cons, countP_isPoint_digits, countP_isPoint_digits]
        at hpoints
      simp [Token.isPoint] at hpoints

/-- A row of digits and points is a number, if it is not faulty. -/
theorem exists_tokens_eq {row : List Token} (hparts : ∀ token ∈ row, token.isNumberPart)
    (h : ¬ IsFaulty row) : ∃ n : PlainNumber, n.tokens = row := by
  rcases PlainNumber.row_cases hparts with hnumber | rfl | rfl | ⟨whole, digits, more, rfl⟩
  · exact hnumber
  · exact absurd (.inl (by simp)) h
  · exact absurd (.inl (by simp)) h
  · refine absurd (.inr ?_) h
    rw [List.countP_append, List.countP_cons, List.countP_append, List.countP_cons,
      countP_isPoint_digits, countP_isPoint_digits]
    simp [Token.isPoint]

/-- A row can be read unless it is faulty, and its sign does not matter. -/
theorem isSome_ofText?_numberText_iff {row : List Token} (hne : row ≠ [])
    (hparts : ∀ token ∈ row, token.isNumberPart) (negative : Bool) :
    (Numeral.ofText? (numberText negative row)).isSome ↔ ¬ IsFaulty row := by
  rw [numberText_eq]
  constructor
  · intro h
    obtain ⟨n, rfl⟩ := PlainNumber.exists_of_isSome_ofText? hne hparts negative h
    exact not_isFaulty_tokens n
  · intro h
    obtain ⟨n, rfl⟩ := exists_tokens_eq hparts h
    have htext := SignedNumber.text_eq ⟨negative, n⟩
    rw [PlainNumber.flatMap_spelling_tokens, ← htext]
    exact SignedNumber.isSome_ofText? _

/-! ## Places of faults -/

/-- A row is not begun by any other token. -/
theorem not_faultAt_of_cons {front rest : List Token} {token : Token}
    (htoken : token.isNumberPart = false) (text : String) :
    ¬ FaultAt (front ++ token :: rest) front.length text := by
  intro h
  obtain ⟨before, row, after, heq, hlength, hrow, -, -⟩ := h
  rw [List.append_assoc] at heq
  obtain ⟨first, more, rfl⟩ := List.exists_cons_of_ne_nil hrow.ne_nil
  obtain ⟨-, htail⟩ := List.append_inj heq hlength.symm
  obtain rfl := (List.cons.inj htail).1
  rw [hrow.parts token List.mem_cons_self] at htoken
  cases htoken

/-- The row that begins behind a list is determined. -/
theorem IsRow.eq_of_append {front row after before row' after' : List Token}
    (h : IsRow front row after) (h' : IsRow before row' after')
    (heq : front ++ row ++ after = before ++ row' ++ after')
    (hlength : before.length = front.length) : front = before ∧ row = row' := by
  rw [List.append_assoc, List.append_assoc] at heq
  obtain ⟨rfl, htail⟩ := List.append_inj heq hlength.symm
  have htake : ∀ {row after : List Token}, IsRow front row after →
      (row ++ after).takeWhile Token.isNumberPart = row := by
    intro row after hrow
    have hends : after.takeWhile Token.isNumberPart = [] := by
      cases after with
      | nil => rfl
      | cons token after =>
        exact List.takeWhile_cons_of_neg (by simpa using hrow.ends)
    rw [List.takeWhile_append_of_pos hrow.parts, hends, List.append_nil]
  exact ⟨rfl, by rw [← htake h, htail, htake h']⟩

/-- No row begins within another one. -/
theorem IsRow.not_faultAt {front row after : List Token} (h : IsRow front row after) {m : Nat}
    (hfront : front.length < m) (hrow : m < front.length + row.length) (text : String) :
    ¬ FaultAt (front ++ row ++ after) m text := by
  intro hfault
  obtain ⟨before, row', after', heq, rfl, hrow', -, -⟩ := hfault
  -- What is directly in front of `m` is the last of `before`, and in the row.
  have hlast : before.getLast? = row[before.length - 1 - front.length]? := by
    have hbefore : before.getLast? = (before ++ row' ++ after')[before.length - 1]? := by
      rw [List.append_assoc, List.getElem?_append_left (by omega), List.getLast?_eq_getElem?]
    rw [hbefore, ← heq, List.append_assoc, List.getElem?_append_right (by omega),
      List.getElem?_append_left (by omega)]
  have hindex : before.length - 1 - front.length < row.length := by omega
  have hbegins := hrow'.begins
  rw [hlast, List.getElem?_eq_getElem hindex, Option.any_some] at hbegins
  rw [h.parts _ (List.getElem_mem hindex)] at hbegins
  cases hbegins

/-- The first fault from a place on. -/
def NextFault (tokens : List Token) (start : Nat) (text : String) : Prop :=
  ∃ n, start ≤ n ∧ FaultAt tokens n text ∧
    ∀ m, start ≤ m → m < n → ∀ other, ¬ FaultAt tokens m other

/-- Places without a fault do not matter. -/
theorem nextFault_iff_of_le {tokens : List Token} {start stop : Nat} (hle : start ≤ stop)
    (hnone : ∀ m, start ≤ m → m < stop → ∀ other, ¬ FaultAt tokens m other) {text : String} :
    NextFault tokens start text ↔ NextFault tokens stop text := by
  constructor
  · intro h
    obtain ⟨n, hstart, hfault, hfirst⟩ := h
    have hstop : stop ≤ n := by
      by_contra hlt
      exact hnone n hstart (by omega) text hfault
    exact ⟨n, hstop, hfault, fun m hm => hfirst m (by omega)⟩
  · intro h
    obtain ⟨n, hstop, hfault, hfirst⟩ := h
    refine ⟨n, by omega, hfault, ?_⟩
    intro m hstart hm other
    by_cases hbefore : m < stop
    · exact hnone m hstart hbefore other
    · exact hfirst m (by omega) hm other

/-- A token that begins no row does not matter. -/
theorem nextFault_cons_iff {front rest : List Token} {token : Token}
    (htoken : token.isNumberPart = false) {text : String} :
    NextFault (front ++ token :: rest) front.length text ↔
      NextFault (front ++ token :: rest) (front ++ [token]).length text := by
  rw [List.length_append, List.length_singleton]
  apply nextFault_iff_of_le (by omega)
  intro m hstart hm other
  obtain rfl : m = front.length := by omega
  exact not_faultAt_of_cons htoken other

/-- No row begins at the end. -/
theorem not_nextFault_length (tokens : List Token) (text : String) :
    ¬ NextFault tokens tokens.length text := by
  intro h
  obtain ⟨n, hle, hfault, -⟩ := h
  obtain ⟨before, row, after, heq, hlength, hrow, -, -⟩ := hfault
  have hpositive := List.length_pos_iff.mpr hrow.ne_nil
  have hlengths := congrArg List.length heq
  simp only [List.length_append] at hlengths
  omega

/-- A row that is no number is the first fault from its own place on. -/
theorem IsRow.nextFault_iff {front row after : List Token} (h : IsRow front row after)
    (hfaulty : IsFaulty row) {text : String} :
    NextFault (front ++ row ++ after) front.length text ↔
      numberText (signBehind front) row = text := by
  have hhere : FaultAt (front ++ row ++ after) front.length (numberText (signBehind front) row) :=
    ⟨front, row, after, rfl, rfl, h, hfaulty, rfl⟩
  constructor
  · intro hnext
    obtain ⟨n, hle, hfault, hfirst⟩ := hnext
    have hn : n = front.length := by
      by_contra hne
      exact hfirst front.length (Nat.le_refl _) (by omega) _ hhere
    obtain ⟨before, row', after', heq, hlength, hrow, -, rfl⟩ := hfault
    obtain ⟨rfl, rfl⟩ := h.eq_of_append hrow heq (hlength.trans hn)
    rfl
  · intro htext
    subst htext
    exact ⟨front.length, Nat.le_refl _, hhere, fun m _ _ => by omega⟩

/-- A row that is a number is no fault. -/
theorem IsRow.nextFault_append_iff {front row after : List Token} (h : IsRow front row after)
    (hfine : ¬ IsFaulty row) {text : String} :
    NextFault (front ++ row ++ after) front.length text ↔
      NextFault (front ++ row ++ after) (front ++ row).length text := by
  rw [List.length_append]
  apply nextFault_iff_of_le (by omega)
  intro m hfront hrow other
  by_cases hbegin : m = front.length
  · intro hfault
    obtain ⟨before, row', after', heq, hlength, hrow', hfaulty, -⟩ := hfault
    obtain ⟨-, rfl⟩ := h.eq_of_append hrow' heq (hlength.trans hbegin)
    exact hfine hfaulty
  · exact h.not_faultAt (by omega) hrow other

/-! ## Faults in reverse Polish order -/

/-- The faults of a list that begins with a number are that of the number, and those of the
rest. -/
theorem faultsIn_divide_number (negative : Bool) {parts : List Token} (hne : parts ≠ [])
    (hparts : ∀ token ∈ parts, token.isNumberPart) (rest : List Token) :
    faultsIn (divide (Token.sign negative ++ parts ++ .space :: rest)) =
      (Block.number negative parts).faults ++ faultsIn (divide rest) := by
  have hdivides : Divides (Token.sign negative ++ parts ++ .space :: rest)
      (.number negative parts :: .space :: divide rest) :=
    .number negative hne hparts rfl (.space (divides_divide rest))
  rw [← divides_iff.mp hdivides, faultsIn, faultsIn]
  rfl

/-- Whether there are spaces or not, joining comes across the faults of the division. -/
theorem Apart.joinDigits_eq {tokens : List Token} (h : Apart tokens) :
    joinDigits tokens = resultOf (divide tokens) := by
  rw [joinDigits, ← joinFrom_of_divides (divides_divide tokens)]
  split
  · rename_i hfree
    rw [(joinFrom_of_joined (h.joined_self hfree)).1]
  · rfl

theorem Apart.faultsIn_of_spaceFree {tokens : List Token} (h : Apart tokens)
    (hfree : isSpaceFree tokens) : faultsIn (divide tokens) = [] := by
  have hresult := h.joinDigits_eq
  rw [joinDigits_of_spaceFree hfree, resultOf] at hresult
  split at hresult
  · assumption
  · cases hresult

/-- The faults in a list are those in its digits, and those in its arguments are in their place. -/
theorem Apart.faultsIn_digits_append {tokens : List Token} (h : Apart tokens)
    (rest : List Token) :
    faultsIn (divide (digits tokens ++ rest)) =
      faultsIn (divide tokens) ++ faultsIn (divide rest) := by
  induction h generalizing rest with
  | nil => rfl
  | @number negative parts tokens hne hparts _ ih =>
    have hdigits : digits (Token.sign negative ++ parts ++ .space :: tokens) =
        Token.sign negative ++ parts ++ .space :: digits tokens := by
      rw [digits_append, digits_of_isOfNumber fun _ => isOfNumber_of_mem hparts]
      rfl
    rw [hdigits, List.append_assoc, List.cons_append, faultsIn_divide_number negative hne hparts,
      faultsIn_divide_number negative hne hparts, ih, List.append_assoc]
  | @symbol token htoken tokens _ ih =>
    have hnone : digitsToken token = [] := by
      cases token <;> first | rfl | cases htoken
    have hdivides : Divides (token :: tokens) (.other token :: divide tokens) := by
      refine .other ?_ ?_ (divides_divide tokens)
      · cases token <;> first | rfl | cases htoken
      · cases token <;> first | rfl | cases htoken
    rw [digits, hnone, ← divides_iff.mp hdivides, faultsIn]
    exact ih rest
  | @fn f arg tokens harg _ iharg ih =>
    have hfaults : faultsIn (divide (.fn f arg :: tokens)) =
        faultsIn (divide arg) ++ faultsIn (divide tokens) := by
      cases hspace : isSpaceFree arg with
      | true =>
        rw [harg.faultsIn_of_spaceFree hspace, divide, divideToken, if_pos hspace]
        rfl
      | false =>
        rw [divide, divideToken, if_neg (by simp [hspace])]
        rfl
    rw [hfaults, digits, digitsToken, List.append_assoc, iharg, ih, List.append_assoc]

/-! ## Faults in a formula -/

theorem expectsBehind_concat (front : List Token) (token : Token) :
    expectsBehind (front ++ [token]) =
      if token.isSpace then expectsBehind front else token.awaitsOperand := by
  rw [expectsBehind, expectsBehind, List.reverse_append, List.reverse_singleton,
    List.singleton_append, List.find?_cons]
  cases token <;> rfl

theorem signBehind_concat (front : List Token) (token : Token) :
    signBehind (front ++ [token]) =
      if token.isSpace then signBehind front else
        match token with
        | .operator .sub => expectsBehind front
        | _ => false := by
  rw [signBehind, List.reverse_append, List.reverse_singleton, List.singleton_append]
  cases token with
  | operator op =>
    cases op with
    | sub =>
      show expectsBehind front.reverse.reverse = expectsBehind front
      rw [List.reverse_reverse]
    | _ => rfl
  | _ => rfl

/-- Behind a row of digits and points there comes no operand, and no sign has been read. -/
theorem IsRow.behind {front row after : List Token} (h : IsRow front row after) :
    expectsBehind (front ++ row) = false ∧ signBehind (front ++ row) = false := by
  obtain ⟨init, last, hrow⟩ := (List.eq_nil_or_concat row).resolve_left h.ne_nil
  rw [List.concat_eq_append] at hrow
  have hlast : last.isNumberPart := h.parts last (by simp [hrow])
  rw [hrow, ← List.append_assoc, expectsBehind_concat, signBehind_concat]
  cases last <;> first | exact ⟨rfl, rfl⟩ | cases hlast

/-- The digits of the rest of a formula, from the sign on that has been read already. -/
def digitsBehind (front rest : List Token) : List Token :=
  Token.sign (signBehind front && Yard.numberAhead rest) ++
    Yard.digitsIn (expectsBehind front) rest

theorem digitsBehind_nil (front : List Token) : digitsBehind front [] = [] := by
  rw [digitsBehind, Yard.numberAhead, List.find?_nil, Option.any_none, Bool.and_false]
  rfl

/-- A `-` adds the sign of the number behind it, or a number without a fault, or nothing. -/
theorem faultsIn_digitsOf_sub (expects : Bool) (rest digits : List Token) :
    faultsIn (divide (Yard.digitsOf expects rest (.operator .sub) ++ digits)) =
      faultsIn (divide (Token.sign (expects && Yard.numberAhead rest) ++ digits)) := by
  cases expects with
  | false => rfl
  | true =>
    rw [Yard.digitsOf, if_pos ⟨rfl, rfl⟩, Yard.numberAhead, Bool.true_and]
    dsimp only
    split
    · rename_i hnumber
      rw [hnumber]
      rfl
    · rename_i hnumber
      rw [eq_false_of_ne_true hnumber]
      split
      · have hone : (Block.number true [.digit ⟨1, one_lt_ten⟩]).faults = [] := by
          decide +kernel
        have hnumber := faultsIn_divide_number true (List.cons_ne_nil (.digit ⟨1, one_lt_ten⟩) [])
          (by simp [Token.isNumberPart]) digits
        rw [hone] at hnumber
        exact hnumber
      · rfl

/-- A token that is no digit and no point has no fault. -/
theorem faultsIn_digitsBehind_cons (front rest : List Token) {token : Token}
    (htoken : token.isNumberPart = false) :
    faultsIn (divide (digitsBehind front (token :: rest))) =
      faultsIn (divide (digitsBehind (front ++ [token]) rest)) := by
  have hahead : token.isSpace = false →
      Token.sign (signBehind front && Yard.numberAhead (token :: rest)) = [] := by
    intro hspace
    rw [Yard.numberAhead, List.find?_cons_of_pos (by simp [hspace]), Option.any_some, htoken,
      Bool.and_false]
    rfl
  rw [digitsBehind, digitsBehind, expectsBehind_concat, signBehind_concat, Yard.digitsIn]
  cases token with
  | space => rfl
  | operator op =>
    rw [hahead rfl, List.nil_append]
    cases op with
    | sub => exact faultsIn_digitsOf_sub _ _ _
    | _ => rfl
  | digit d => cases htoken
  | point => cases htoken
  | _ => rw [hahead rfl]; rfl

/-- The digits of a row are the row, with its sign in front. -/
theorem IsRow.digitsBehind_eq {front row after : List Token} (h : IsRow front row after) :
    digitsBehind front (row ++ after) =
      Token.sign (signBehind front) ++ row ++ .space :: digitsBehind (front ++ row) after := by
  have hahead : Yard.numberAhead (row ++ after) := by
    obtain ⟨first, more, rfl⟩ := List.exists_cons_of_ne_nil h.ne_nil
    have hfirst : first.isNumberPart := h.parts first List.mem_cons_self
    cases first <;> first | rfl | cases hfirst
  obtain ⟨hexpects, hsign⟩ := h.behind
  rw [digitsBehind, digitsBehind, hahead, Bool.and_true, hexpects, hsign,
    Yard.digitsIn_parts h.parts h.ne_nil h.ends, List.append_assoc]
  rfl

/-- A row has no fault but itself. -/
theorem faults_number {row : List Token} (hne : row ≠ [])
    (hparts : ∀ token ∈ row, token.isNumberPart) (negative : Bool) :
    (IsFaulty row → (Block.number negative row).faults = [numberText negative row]) ∧
      (¬ IsFaulty row → (Block.number negative row).faults = []) := by
  have hread := isSome_ofText?_numberText_iff hne hparts negative
  constructor
  · intro hfaulty
    rw [Block.faults, if_neg (by simpa [hread] using hfaulty)]
  · intro hfine
    rw [Block.faults, if_pos (hread.mpr hfine)]

/-- What is come across first in the digits of the rest of a formula is the first row in it that is
no number. -/
theorem head?_faultsIn_digitsBehind {front rest : List Token} {text : String}
    (hborder : rest.head?.any Token.isNumberPart → front.getLast?.any Token.isNumberPart = false) :
    (faultsIn (divide (digitsBehind front rest))).head? = some text ↔
      NextFault (front ++ rest) front.length text := by
  -- The rest behind a row is no tail of the tokens, but it is shorter than they are.
  induction hn : rest.length using Nat.strongRecOn generalizing front rest with
  | _ n ih =>
  subst hn
  cases rest with
  | nil =>
    rw [digitsBehind_nil, List.append_nil]
    constructor
    · intro hhead
      cases hhead
    · intro hnext
      exact absurd hnext (not_nextFault_length front text)
  | cons token rest =>
    cases hpart : token.isNumberPart with
    | false =>
      have hbehind : (faultsIn (divide (digitsBehind (front ++ [token]) rest))).head? = some text ↔
          NextFault (front ++ [token] ++ rest) (front ++ [token]).length text :=
        ih rest.length (Nat.lt_succ_self _) (by simp [hpart]) rfl
      rw [List.append_assoc, List.singleton_append] at hbehind
      rw [faultsIn_digitsBehind_cons front rest hpart, hbehind, nextFault_cons_iff hpart]
    | true =>
      obtain ⟨row, more, heq, hne, hparts, hmore, hle⟩ := Yard.exists_number_append hpart rest
      have hrow : IsRow front row more := ⟨hne, hparts, hborder (by simp [hpart]), hmore⟩
      obtain ⟨hfault, hnone⟩ := faults_number hne hparts (signBehind front)
      rw [heq, hrow.digitsBehind_eq, faultsIn_divide_number _ hne hparts, ← List.append_assoc]
      by_cases hfaulty : IsFaulty row
      · rw [hfault hfaulty, hrow.nextFault_iff hfaulty]
        exact Option.some_inj
      · have hbehind : (faultsIn (divide (digitsBehind (front ++ row) more))).head? = some text ↔
            NextFault (front ++ row ++ more) (front ++ row).length text :=
          ih more.length (by rw [List.length_cons]; omega) (by simp [hmore]) rfl
        rw [hnone hfaulty, hrow.nextFault_append_iff hfaulty, List.nil_append, hbehind]

/-- What is come across first when the digits of a formula are joined is its first row that is no
number. -/
theorem head?_faultsIn_ofInfix {tokens apart : List Token} (h : ofInfix tokens = .ok apart)
    (hread : ∀ token ∈ tokens, Yard.isRead token) {text : String} :
    (faultsIn (divide apart)).head? = some text ↔ NextFault tokens 0 text := by
  have hapart : Apart apart := apart_ofInfix h fun hmem => Bool.false_ne_true (hread _ hmem)
  have hdigits : digits apart = digitsBehind [] tokens := digits_ofInfix h hread
  have hfaults := hapart.faultsIn_digits_append []
  rw [List.append_nil, hdigits] at hfaults
  have hnil : faultsIn (divide []) = [] := rfl
  rw [hnil, List.append_nil] at hfaults
  rw [← hfaults]
  exact head?_faultsIn_digitsBehind fun _ => rfl

end ReversePolish

namespace Formula

open ReversePolish

variable {M : Type → Type} [NameTable M]

/-- Once its digits are joined, a formula can be refused for one other reason only. -/
theorem readWith_eq_badNumeral_iff_head? {names : M Fn} {text : String}
    {tokens apart : List Token} (htokens : (Lexer.ofText names text).tokens = .ok tokens)
    (hapart : ofInfix tokens = .ok apart) {fault : String} :
    readWith names text = .error (.badNumeral fault) ↔
      (faultsIn (divide apart)).head? = some fault := by
  have hread : readWith names text = (do
      let joined ← joinDigits apart
      let root ← Expr.ofTokens joined
      .ok ⟨text, joined, root⟩) := by
    rw [readWith, htokens]
    show (ofInfix tokens >>= _) = _
    rw [hapart]
    rfl
  have hjoin := (apart_ofInfix hapart (Lexer.negative_not_mem htokens)).joinDigits_eq
  rw [hread, hjoin, resultOf]
  cases faultsIn (divide apart) with
  | cons first others => simp [bind, Except.bind]
  | nil =>
    show (Expr.ofTokens (joinedIn (divide apart)) >>= _) = _ ↔ _
    cases hroot : Expr.ofTokens (joinedIn (divide apart)) with
    | ok root => simp [bind, Except.bind]
    | error e =>
      obtain rfl := Expr.eq_malformed_of_ofTokens hroot
      simp [bind, Except.bind]

/-- Whatever else is wrong with a formula, a number that cannot be read is reported if there is
one: the first in the text, with its sign. -/
theorem readWith_eq_badNumeral_iff {names : M Fn} {text : String} {tokens apart : List Token}
    (htokens : (Lexer.ofText names text).tokens = .ok tokens)
    (hapart : ofInfix tokens = .ok apart) :
    (∀ fault, readWith names text = .error (.badNumeral fault) ↔
      ∃ n, FaultAt tokens n fault ∧ ∀ m < n, ∀ other, ¬ FaultAt tokens m other) ∧
    ((∃ fault, readWith names text = .error (.badNumeral fault)) ↔
      ∃ before row after, tokens = before ++ row ++ after ∧ IsRow before row after ∧
        IsFaulty row) := by
  have hfirst : ∀ fault, readWith names text = .error (.badNumeral fault) ↔
      ∃ n, FaultAt tokens n fault ∧ ∀ m < n, ∀ other, ¬ FaultAt tokens m other := by
    intro fault
    rw [readWith_eq_badNumeral_iff_head? htokens hapart,
      head?_faultsIn_ofInfix hapart (Lexer.isRead_of_mem htokens), NextFault]
    simp
  refine ⟨hfirst, ?_⟩
  constructor
  · intro h
    obtain ⟨fault, hfault⟩ := h
    obtain ⟨n, hat, -⟩ := (hfirst fault).mp hfault
    obtain ⟨before, row, after, htokens, -, hrow, hfaulty, -⟩ := hat
    exact ⟨before, row, after, htokens, hrow, hfaulty⟩
  · intro h
    obtain ⟨before, row, after, htokens, hrow, hfaulty⟩ := h
    have hsome : ∃ n fault, FaultAt tokens n fault :=
      ⟨_, _, before, row, after, htokens, rfl, hrow, hfaulty, rfl⟩
    classical
    obtain ⟨fault, hfault⟩ := Nat.find_spec hsome
    refine ⟨fault, (hfirst fault).mpr ⟨_, hfault, ?_⟩⟩
    intro m hm other hother
    exact Nat.find_min hsome hm ⟨other, hother⟩

/-- The sign is not directly in front of its number, there is another number that cannot be read,
and no operator in front of it. -/
theorem readWith_eq_badNumeral_iff_sign :
    let text := "2+sin(- 1..)."
    let tokens : List Token := [.digit 2, .operator .add, .fn .sin [], .openCall, .operator .sub,
      .space, .digit 1, .point, .point, .closeCall, .point]
    let apart : List Token := [.digit 2, .space,
      .fn .sin [.negative, .digit 1, .point, .point, .space], .point, .space, .operator .add]
    ((Lexer.ofText standardNames text).tokens = .ok tokens ∧ ofInfix tokens = .ok apart) ∧
      readWith standardNames text = .error (.badNumeral "-1..") ∧
      (∃ n, FaultAt tokens n "-1.." ∧ ∀ m < n, ∀ other, ¬ FaultAt tokens m other) ∧
      ∃ before row after, tokens = before ++ row ++ after ∧ IsRow before row after ∧
        IsFaulty row := by
  intro text tokens apart
  have hspells : Spells "2+sin(- 1..).".toList [.digit 2, .operator .add, .fn .sin [], .openCall,
      .operator .sub, .space, .digit 1, .point, .point, .closeGroup, .point] :=
    .single rfl (.single rfl (.call .sin (.single rfl (.single rfl (.single rfl (.single rfl
      (.single rfl (.single rfl (.single rfl .nil)))))))))
  have htokens : (Lexer.ofText standardNames text).tokens = .ok tokens :=
    Lexer.tokens_eq_ok_iff.mpr ⟨hspells, [], rfl, List.not_mem_nil⟩
  have hapart : ofInfix tokens = .ok apart := rfl
  have hread : readWith standardNames text = .error (.badNumeral "-1..") :=
    (readWith_eq_badNumeral_iff_head? htokens hapart).mpr (by decide +kernel)
  obtain ⟨hfirst, hsome⟩ := readWith_eq_badNumeral_iff htokens hapart
  exact ⟨⟨htokens, hapart⟩, hread, (hfirst _).mp hread, hsome.mp ⟨_, hread⟩⟩

end Formula

end Calculator
