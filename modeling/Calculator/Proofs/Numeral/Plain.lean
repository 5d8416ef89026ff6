import Calculator.Lexer
import Mathlib.Data.List.TakeWhile

/-!
# Plain numbers

The numbers that can stand in a formula: digits with at most one point and at least
one digit, without exponent.  In front of one there may be a sign.

* `Numeral.decimal?_digits` and `Numeral.decimal?_point` are what such a row reads as, and
  `Numeral.read?_of_decimal?` adds the sign.
* `PlainNumber` is such a row of digits, with its characters and its tokens.
* `SignedNumber` is one with its sign.  Its text is always a numeral
  (`SignedNumber.isSome_ofText?`), and `SignedNumber.numeral` is what it reads as.
* `Numeral.tokens` are the tokens of any numeral's text, and those of a number again
  for what it reads as (`SignedNumber.tokens_numeral`).
* `Numeral.isTextChar_of_ofText?` says what characters there can be in the text of any
  numeral, so no white space.
-/

namespace Calculator

namespace Numeral

open Binary64 (Decimal)

variable {row : List Char}

/-! ## Digits and their point -/

/-- A row of digits ends at a point. -/
theorem takeWhile_point (h : ∀ c ∈ row, c.isDigit) (cs : List Char) :
    (row ++ '.' :: cs).takeWhile Char.isDigit = row := by
  have hpoint : ('.' : Char).isDigit = false := rfl
  rw [List.takeWhile_append_of_pos h, List.takeWhile_cons_of_neg (by simp [hpoint]),
    List.append_nil]

theorem dropWhile_point (h : ∀ c ∈ row, c.isDigit) (cs : List Char) :
    (row ++ '.' :: cs).dropWhile Char.isDigit = '.' :: cs := by
  have hpoint : ('.' : Char).isDigit = false := rfl
  rw [List.dropWhile_append_of_pos h, List.dropWhile_cons_of_neg (by simp [hpoint])]

/-- Digits read as the number that they are written for. -/
theorem decimal?_digits (hne : row ≠ []) (h : ∀ c ∈ row, c.isDigit) :
    decimal? row = some ⟨wholeNumber row, 0⟩ := by
  have htake : row.takeWhile Char.isDigit = row := List.takeWhile_eq_self_iff.mpr h
  have hdrop : row.dropWhile Char.isDigit = [] := List.dropWhile_eq_nil_iff.mpr h
  simp [decimal?, htake, hdrop, hne, exponent?]

/-- A point makes one place of each digit behind it. -/
theorem decimal?_point {fraction : List Char} (hne : row ≠ [] ∨ fraction ≠ [])
    (h : ∀ c ∈ row, c.isDigit) (hfraction : ∀ c ∈ fraction, c.isDigit) :
    decimal? (row ++ '.' :: fraction) =
      some ⟨wholeNumber (row ++ fraction), -fraction.length⟩ := by
  have htake : fraction.takeWhile Char.isDigit = fraction :=
    List.takeWhile_eq_self_iff.mpr hfraction
  have hdrop : fraction.dropWhile Char.isDigit = [] := List.dropWhile_eq_nil_iff.mpr hfraction
  have hsome : ¬ (row = [] ∧ fraction = []) := not_and_or.mpr hne
  simp only [decimal?, takeWhile_point h, dropWhile_point h, htake, hdrop, if_neg hsome, exponent?,
    Option.map_some, Int.zero_sub]

/-- What reads as a decimal begins with a digit or a point. -/
theorem exists_head_of_decimal? {cs : List Char} {d : Decimal} (h : decimal? cs = some d) :
    ∃ c more, cs = c :: more ∧ (c.isDigit ∨ c = '.') := by
  cases cs with
  | nil => cases h
  | cons c more =>
    refine ⟨c, more, rfl, ?_⟩
    by_contra hother
    obtain ⟨hdigit, hpoint⟩ := not_or.mp hother
    simp [decimal?, hdigit, hpoint] at h

/-- A digit or a point is neither a sign nor the first letter of a word. -/
theorem ne_of_isDigit_or_point {c : Char} (h : c.isDigit ∨ c = '.') :
    c ≠ '-' ∧ c ≠ '+' ∧ c.toLower ≠ 'i' ∧ c.toLower ≠ 'n' := by
  rcases h with hdigit | rfl
  · have hle : c.val ≤ 57 := by
      simp only [Char.isDigit, Bool.and_eq_true, decide_eq_true_eq] at hdigit
      exact hdigit.2
    have hlower : c.toLower = c :=
      dif_neg fun hupper => absurd (UInt32.le_trans hupper.1 hle) (by decide)
    rw [hlower]
    refine ⟨?_, ?_, ?_, ?_⟩ <;> rintro rfl <;> exact absurd hdigit (by decide)
  · decide

/-- A decimal is read as the double nearest to it, with the sign in front of it. -/
theorem read?_of_decimal? {cs : List Char} {d : Decimal} (h : decimal? cs = some d)
    (negative : Bool) :
    read? (if negative then '-' :: cs else cs) =
      some (Binary64.ofMagnitude negative d.nearest) := by
  obtain ⟨c, more, rfl, hhead⟩ := exists_head_of_decimal? h
  obtain ⟨hminus, hplus, hi, hn⟩ := ne_of_isDigit_or_point hhead
  have hword : wordMagnitude? (c :: more) = none := by simp [wordMagnitude?, hi, hn]
  cases negative with
  | false => simp [read?, splitSign, hminus, hplus, hword, h]
  | true => simp [read?, splitSign, hword, h]

end Numeral

/-- Digits with at most one point and at least one digit. -/
structure PlainNumber where
  whole : List (Fin 10)
  /-- The digits behind the point, if there is a point. -/
  fraction : Option (List (Fin 10))
  hasDigit : whole ≠ [] ∨ fraction.getD [] ≠ []

namespace PlainNumber

/-- The characters of the digits. -/
def digitChars (digits : List (Fin 10)) : List Char := digits.map fun d : Fin 10 => Nat.digitChar d

/-- The characters of a number. -/
def chars (n : PlainNumber) : List Char :=
  match n.fraction with
  | none => digitChars n.whole
  | some digits => digitChars n.whole ++ '.' :: digitChars digits

/-- The tokens of a number. -/
def tokens (n : PlainNumber) : List Token :=
  match n.fraction with
  | none => n.whole.map .digit
  | some digits => n.whole.map .digit ++ .point :: digits.map .digit

theorem isDigit_digitChar (d : Fin 10) : (Nat.digitChar d).isDigit := by
  revert d
  decide

theorem isDigit_of_mem_digitChars {digits : List (Fin 10)} {c : Char}
    (h : c ∈ digitChars digits) : c.isDigit := by
  obtain ⟨d, -, rfl⟩ := List.mem_map.mp h
  exact isDigit_digitChar d

/-- A number is read up to its end. -/
theorem isSome_decimal?_chars (n : PlainNumber) : (Numeral.decimal? n.chars).isSome := by
  obtain ⟨whole, fraction, hasDigit⟩ := n
  have hdigits : ∀ digits, ∀ c ∈ digitChars digits, c.isDigit :=
    fun digits c => isDigit_of_mem_digitChars
  cases fraction with
  | none =>
    have hwhole : digitChars whole ≠ [] := by simpa [digitChars] using hasDigit
    rw [chars, Numeral.decimal?_digits hwhole (hdigits whole)]
    rfl
  | some digits =>
    have hsome : digitChars whole ≠ [] ∨ digitChars digits ≠ [] := by
      simpa [digitChars] using hasDigit
    rw [chars, Numeral.decimal?_point hsome (hdigits whole) (hdigits digits)]
    rfl

theorem isNumberPart_of_mem_tokens {n : PlainNumber} {token : Token} (h : token ∈ n.tokens) :
    token.isNumberPart := by
  have hdigits : ∀ digits : List (Fin 10), token ∈ digits.map Token.digit →
      token.isNumberPart := by
    intro digits hmem
    obtain ⟨d, -, rfl⟩ := List.mem_map.mp hmem
    rfl
  obtain ⟨whole, fraction, hasDigit⟩ := n
  cases fraction with
  | none => exact hdigits whole h
  | some digits =>
    rcases List.mem_append.mp h with hwhole | hpoint
    · exact hdigits whole hwhole
    · rcases List.mem_cons.mp hpoint with rfl | hfraction
      · rfl
      · exact hdigits digits hfraction

theorem tokens_ne_nil (n : PlainNumber) : n.tokens ≠ [] := by
  obtain ⟨whole, fraction, hasDigit⟩ := n
  cases fraction with
  | none => simpa [tokens] using hasDigit
  | some digits => simp [tokens]

theorem flatMap_spelling_digits (digits : List (Fin 10)) :
    (digits.map Token.digit).flatMap (fun token => token.spelling.toList) =
      digitChars digits := by
  rw [List.flatMap_map, digitChars, List.map_eq_flatMap]
  simp [Token.spelling]

/-- The tokens of a number are written as its characters. -/
theorem flatMap_spelling_tokens (n : PlainNumber) :
    n.tokens.flatMap (fun token => token.spelling.toList) = n.chars := by
  obtain ⟨whole, fraction, hasDigit⟩ := n
  cases fraction with
  | none => exact flatMap_spelling_digits whole
  | some digits =>
    rw [tokens, List.flatMap_append, flatMap_spelling_digits, List.flatMap_cons,
      flatMap_spelling_digits]
    rfl

/-- A row of digits and points is one of digits, up to its first point if there is one. -/
theorem exists_map_digit {parts : List Token} (h : ∀ token ∈ parts, token.isNumberPart) :
    ∃ digits : List (Fin 10), parts = digits.map .digit ∨
      ∃ rest, parts = digits.map .digit ++ .point :: rest := by
  induction parts with
  | nil => exact ⟨[], .inl rfl⟩
  | cons token parts ih =>
    obtain ⟨htoken, htokens⟩ := List.forall_mem_cons.mp h
    obtain ⟨digits, hparts⟩ := ih htokens
    cases token with
    | point => exact ⟨[], .inr ⟨parts, rfl⟩⟩
    | digit d =>
      refine ⟨d :: digits, ?_⟩
      rcases hparts with rfl | ⟨rest, rfl⟩
      · exact .inl rfl
      · exact .inr ⟨rest, rfl⟩
    | _ => cases htoken

/-- A row of digits and points is a number, unless there is no digit in it or a second point. -/
theorem row_cases {parts : List Token} (hparts : ∀ token ∈ parts, token.isNumberPart) :
    (∃ n : PlainNumber, n.tokens = parts) ∨ parts = [] ∨ parts = [.point] ∨
      ∃ (whole digits : List (Fin 10)) (more : List Token),
        parts = whole.map .digit ++ .point :: (digits.map .digit ++ .point :: more) := by
  obtain ⟨whole, rfl | ⟨rest, rfl⟩⟩ := exists_map_digit hparts
  · by_cases hwhole : whole = []
    · exact .inr (.inl (by rw [hwhole]; rfl))
    · exact .inl ⟨⟨whole, none, .inl hwhole⟩, rfl⟩
  · have hrest : ∀ token ∈ rest, token.isNumberPart :=
      fun token hmem => hparts token (by simp [hmem])
    obtain ⟨digits, rfl | ⟨more, rfl⟩⟩ := exists_map_digit hrest
    · by_cases hdigit : whole ≠ [] ∨ digits ≠ []
      · exact .inl ⟨⟨whole, some digits, hdigit⟩, rfl⟩
      · have hnil : whole = [] ∧ digits = [] := by simpa using hdigit
        exact .inr (.inr (.inl (by rw [hnil.1, hnil.2]; rfl)))
    · exact .inr (.inr (.inr ⟨whole, digits, more, rfl⟩))

/-- A row of digits and points that can be read is a number. -/
theorem exists_of_isSome_decimal? {parts : List Token}
    (hparts : ∀ token ∈ parts, token.isNumberPart)
    (h : (Numeral.decimal? (parts.flatMap fun token => token.spelling.toList)).isSome) :
    ∃ n : PlainNumber, n.tokens = parts := by
  have hspelling : Token.spelling .point = "." := rfl
  rcases row_cases hparts with hnumber | rfl | rfl | ⟨whole, digits, more, rfl⟩
  · exact hnumber
  · simp [Numeral.decimal?] at h
  · simp [Numeral.decimal?, Token.spelling] at h
  · -- A second point is no exponent.
    exfalso
    rw [List.flatMap_append, List.flatMap_cons, List.flatMap_append, List.flatMap_cons,
      flatMap_spelling_digits, flatMap_spelling_digits, hspelling] at h
    have hdot : ".".toList = ['.'] := rfl
    have hdigits : ∀ digits, ∀ c ∈ digitChars digits, c.isDigit :=
      fun digits c => isDigit_of_mem_digitChars
    simp only [Numeral.decimal?, hdot, List.singleton_append,
      Numeral.takeWhile_point (hdigits _), Numeral.dropWhile_point (hdigits _)] at h
    simp [Numeral.exponent?] at h

end PlainNumber

/-- The token in front of a number that has a sign. -/
def Token.sign (negative : Bool) : List Token := if negative then [.negative] else []

/-- A number with the sign in front of it. -/
structure SignedNumber where
  negative : Bool
  magnitude : PlainNumber

namespace SignedNumber

/-- The characters of a number and its sign. -/
def chars (n : SignedNumber) : List Char :=
  if n.negative then '-' :: n.magnitude.chars else n.magnitude.chars

/-- The text of a number with its sign. -/
def text (n : SignedNumber) : String := String.ofList n.chars

/-- The tokens of a number in reverse Polish order, where it is clear what its sign is. -/
def tokens (n : SignedNumber) : List Token := Token.sign n.negative ++ n.magnitude.tokens

theorem text_eq (n : SignedNumber) :
    n.text = (if n.negative then "-" else "") ++ String.ofList n.magnitude.chars := by
  rw [text, chars]
  split
  · rw [String.ofList_cons]
    rfl
  · simp

/-- Every number can be read. -/
theorem isSome_ofText? (n : SignedNumber) : (Numeral.ofText? n.text).isSome := by
  obtain ⟨d, hd⟩ := Option.isSome_iff_exists.mp n.magnitude.isSome_decimal?_chars
  rw [text, Numeral.ofText?, String.toList_ofList, chars, Numeral.read?_of_decimal? hd]
  rfl

/-- What a number reads as. -/
def numeral (n : SignedNumber) : Numeral := (Numeral.ofText? n.text).get n.isSome_ofText?

theorem ofText?_text (n : SignedNumber) : Numeral.ofText? n.text = some n.numeral := by
  simp [numeral]

/-- A number stays written as it is. -/
theorem text_numeral (n : SignedNumber) : n.numeral.text = n.text := by
  obtain ⟨value, -, hvalue⟩ := Option.map_eq_some_iff.mp n.ofText?_text
  rw [← hvalue]

theorem ofText?_text_numeral (n : SignedNumber) :
    Numeral.ofText? n.numeral.text = some n.numeral := by
  rw [text_numeral, ofText?_text]

end SignedNumber

/-- A row of digits and points begins with one of them. -/
theorem PlainNumber.spelling_head {token : Token} (h : token.isNumberPart) :
    ∃ c, token.spelling.toList = [c] ∧ (c.isDigit ∨ c = '.') := by
  cases token with
  | point => exact ⟨'.', rfl, .inr rfl⟩
  | digit d => exact ⟨Nat.digitChar d, by simp [Token.spelling], .inl (isDigit_digitChar d)⟩
  | _ => cases h

/-- A row of digits and points that can be read, perhaps with a sign, is a number. -/
theorem PlainNumber.exists_of_isSome_ofText? {parts : List Token} (hne : parts ≠ [])
    (hparts : ∀ token ∈ parts, token.isNumberPart) (negative : Bool)
    (h : (Numeral.ofText? ((if negative then "-" else "") ++
      String.ofList (parts.flatMap fun token => token.spelling.toList))).isSome) :
    ∃ n : PlainNumber, n.tokens = parts := by
  apply exists_of_isSome_decimal? hparts
  obtain ⟨first, more, rfl⟩ := List.exists_cons_of_ne_nil hne
  obtain ⟨c, hc, hhead⟩ := spelling_head (hparts first List.mem_cons_self)
  obtain ⟨hminus, hplus, hi, hn⟩ := Numeral.ne_of_isDigit_or_point hhead
  have hword : ∀ cs, Numeral.wordMagnitude? (c :: cs) = none := by
    intro cs
    simp [Numeral.wordMagnitude?, hi, hn]
  have hsign : ∀ cs, Numeral.splitSign (c :: cs) = (false, c :: cs) := by
    intro cs
    simp [Numeral.splitSign, hminus, hplus]
  rw [List.flatMap_cons, hc, List.singleton_append] at h ⊢
  generalize (more.flatMap fun token => token.spelling.toList) = cs at h ⊢
  cases negative with
  | false =>
    simpa [Numeral.ofText?, Numeral.read?, hsign, hword] using h
  | true =>
    simpa [Numeral.ofText?, Numeral.read?, Numeral.splitSign, hword] using h

/-! ## The tokens of a numeral -/

/-- The token of a character in the text of a numeral, where a `-` is a sign. -/
def Token.ofNumeralChar? (c : Char) : Option Token :=
  if c = '-' then some .negative else Token.ofChar? c

/-- The tokens of a numeral's text. -/
def Numeral.tokens (n : Numeral) : List Token := n.text.toList.filterMap Token.ofNumeralChar?

/-- A digit is read as one token. -/
theorem Token.ofChar?_digitChar (d : Fin 10) :
    Token.ofChar? (Nat.digitChar d) = some (.digit d) := by
  match d with
  | 0 | 1 | 2 | 3 | 4 | 5 | 6 | 7 | 8 | 9 => rfl

theorem PlainNumber.filterMap_chars (n : PlainNumber) :
    n.chars.filterMap Token.ofNumeralChar? = n.tokens := by
  have hchar : ∀ d : Fin 10, Token.ofNumeralChar? (Nat.digitChar d) = some (.digit d) := by
    intro d
    have hsign : Nat.digitChar d ≠ '-' := by
      intro h
      simpa [h] using isDigit_digitChar d
    rw [Token.ofNumeralChar?, if_neg hsign, Token.ofChar?_digitChar]
  have hdigits : ∀ digits : List (Fin 10),
      (digitChars digits).filterMap Token.ofNumeralChar? = digits.map .digit := by
    intro digits
    have hfun : Token.ofNumeralChar? ∘ (fun d : Fin 10 => Nat.digitChar d) =
        fun d => some (Token.digit d) := funext hchar
    rw [digitChars, List.filterMap_map, hfun, List.filterMap_eq_map']
  have hpoint : Token.ofNumeralChar? '.' = some .point := rfl
  obtain ⟨whole, fraction, hasDigit⟩ := n
  cases fraction with
  | none => exact hdigits whole
  | some digits =>
    rw [chars, List.filterMap_append, hdigits, List.filterMap_cons_some hpoint, hdigits]
    rfl

/-- A plain number has the same tokens as its numeral. -/
theorem SignedNumber.tokens_numeral (n : SignedNumber) : n.numeral.tokens = n.tokens := by
  have hsign : Token.ofNumeralChar? '-' = some .negative := rfl
  rw [Numeral.tokens, n.text_numeral, text, String.toList_ofList, chars, tokens, Token.sign]
  split
  · rw [List.filterMap_cons_some hsign, PlainNumber.filterMap_chars, List.singleton_append]
  · rw [PlainNumber.filterMap_chars, List.nil_append]

/-! ## The characters of a numeral -/

namespace Numeral

/-- What there is in the text of a numeral besides digits, the letters in lower case. -/
def textChars : List Char := ['.', '-', '+', 'e', 'i', 'n', 'f', 't', 'y', 'a']

/-- Whether a character can stand in the text of a numeral. -/
def isTextChar (c : Char) : Bool := c.isDigit || textChars.contains c.toLower

theorem isTextChar_of_isDigit {c : Char} (h : c.isDigit) : isTextChar c := by
  rw [isTextChar, h, Bool.true_or]

/-- A text is made of its sign and of what is behind it. -/
theorem isTextChar_of_splitSign {cs : List Char}
    (h : ∀ c ∈ (splitSign cs).2, isTextChar c) : ∀ c ∈ cs, isTextChar c := by
  unfold splitSign at h
  split at h
  · exact List.forall_mem_cons.mpr ⟨rfl, h⟩
  · exact List.forall_mem_cons.mpr ⟨rfl, h⟩
  · exact h

theorem isTextChar_of_wordMagnitude? {cs : List Char} (h : (wordMagnitude? cs).isSome) :
    ∀ c ∈ cs, isTextChar c := by
  have hword : ∀ word : List Char, word.all textChars.contains → cs.map Char.toLower = word →
      ∀ c ∈ cs, isTextChar c := by
    intro word hletters hmap c hmem
    rw [isTextChar, List.all_eq_true.mp hletters _ (hmap ▸ List.mem_map_of_mem hmem),
      Bool.or_true]
  simp only [wordMagnitude?] at h
  split at h
  · next hinf =>
    rcases hinf with hmap | hmap
    · exact hword _ rfl hmap
    · exact hword _ rfl hmap
  · split at h
    · next hnan => exact hword _ rfl hnan
    · cases h

theorem isTextChar_of_exponent? {cs : List Char} (h : (exponent? cs).isSome) :
    ∀ c ∈ cs, isTextChar c := by
  cases cs with
  | nil => simp
  | cons mark cs =>
    simp only [exponent?] at h
    split at h
    · next hexponent =>
      obtain ⟨hmark, -, hdigits⟩ := hexponent
      have hrest : ∀ c ∈ cs, isTextChar c := by
        apply isTextChar_of_splitSign
        intro c hmem
        exact isTextChar_of_isDigit (List.all_eq_true.mp hdigits c hmem)
      rcases hmark with rfl | rfl
      · exact List.forall_mem_cons.mpr ⟨rfl, hrest⟩
      · exact List.forall_mem_cons.mpr ⟨rfl, hrest⟩
    · cases h

/-- Digits, and then what is behind them. -/
theorem isTextChar_of_dropWhile {cs : List Char}
    (h : ∀ c ∈ cs.dropWhile Char.isDigit, isTextChar c) : ∀ c ∈ cs, isTextChar c := by
  intro c hmem
  rw [← List.takeWhile_append_dropWhile (p := Char.isDigit) (l := cs), List.mem_append] at hmem
  rcases hmem with hdigit | hrest
  · exact isTextChar_of_isDigit (List.mem_takeWhile_imp hdigit)
  · exact h c hrest

theorem isTextChar_of_decimal? {cs : List Char} (h : (decimal? cs).isSome) :
    ∀ c ∈ cs, isTextChar c := by
  apply isTextChar_of_dropWhile
  simp only [decimal?] at h
  split at h <;> split at h
  · cases h
  · next hpoint _ =>
    rw [Option.isSome_map] at h
    rw [hpoint]
    exact List.forall_mem_cons.mpr ⟨rfl, isTextChar_of_dropWhile (isTextChar_of_exponent? h)⟩
  · cases h
  · rw [Option.isSome_map] at h
    exact isTextChar_of_exponent? h

/-- There is nothing else in a text that can be read, so no white space. -/
theorem isTextChar_of_ofText? {text : String} {n : Numeral} (h : ofText? text = some n) :
    ∀ c ∈ text.toList, isTextChar c := by
  have hread : (ofText? text).isSome := by simp [h]
  rw [ofText?, Option.isSome_map, read?, Option.isSome_map, Option.isSome_or, Bool.or_eq_true,
    Option.isSome_map] at hread
  apply isTextChar_of_splitSign
  rcases hread with hword | hdecimal
  · exact isTextChar_of_wordMagnitude? hword
  · exact isTextChar_of_decimal? hdecimal

end Numeral

end Calculator
