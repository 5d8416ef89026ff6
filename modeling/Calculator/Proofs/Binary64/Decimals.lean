import Calculator.Binary64.Thousandths
import Calculator.Proofs.Binary64.Nearest
import Calculator.Proofs.Numeral.Plain

/-!
# Decimals for rounding

`LawfulDecimals` says what decimals have to do when a double is rounded to thousandths.  The kind of
decimals makes no difference beyond that.

* `thousandths` is the number that is asked for, and `thousandths_eq_iff` says which counts of units
  have so many.
* `read?_text_round` puts the laws together: the text of a rounded decimal is read as the double
  nearest to the thousandths.
* `SignedDecimal` is lawful.  It rounds the exact decimal as it would round the count of units
  (`SignedDecimal.digits_round_exact`), and what it writes is read again
  (`SignedDecimal.decimal?_row`).
-/

namespace Calculator.Binary64

/-! ## Whole thousandths -/

/-- The whole number of thousandths nearest to a count of units; half a thousandth rounds up. -/
def thousandths (units : Nat) : Nat := (2000 * units + unitsInOne) / (2 * unitsInOne)

/-- The thousandths are the whole number that is at most half a thousandth away, from below only
less than that. -/
theorem thousandths_eq_iff {units t : Nat} :
    thousandths units = t ↔
      2 * (t * unitsInOne) ≤ 2000 * units + unitsInOne ∧
        2000 * units < 2 * (t * unitsInOne) + unitsInOne := by
  have hpos : 0 < 2 * unitsInOne := Nat.mul_pos (by decide) unitsInOne_pos
  have hunfold : thousandths units = (2000 * units + unitsInOne) / (2 * unitsInOne) := rfl
  rw [hunfold, Nat.div_eq_iff hpos]
  have htwice : t * (2 * unitsInOne) = 2 * (t * unitsInOne) := by ring
  omega

theorem thousandths_mono {units units' : Nat} (h : units ≤ units') :
    thousandths units ≤ thousandths units' :=
  Nat.div_le_div_right (by omega)

theorem thousandths_mul_unitsInOne (n : Nat) : thousandths (n * unitsInOne) = 1000 * n := by
  have := unitsInOne_pos
  apply thousandths_eq_iff.mpr
  rw [Nat.mul_assoc]
  omega

/-! ## Decimals -/

/-- A decimal of few places reads as the double nearest to it. -/
theorem Decimal.nearest_places (digits : Nat) {places : Nat} (h : 3 * places ≤ 1076) :
    (⟨digits, -places⟩ : Decimal).nearest = Binary64.nearest digits (10 ^ places) := by
  have hplaces : (-(-places : Int)).toNat = places := by simp
  unfold Decimal.nearest
  dsimp only
  rw [hplaces]
  split
  · rename_i hzero
    rw [hzero, nearest_zero (Nat.pow_pos (by decide))]
  · rw [if_neg (by omega)]
    split
    · obtain rfl : places = 0 := by omega
      simp
    · rw [if_neg (by omega), Nat.pow_eq]

/-- What decimals have to do for the rounding.  Nothing is asked of a decimal that is no double, nor
of other numbers of places. -/
class LawfulDecimals [Decimals] : Prop where
  /-- The finite doubles below two to the power 96 have decimals, and no others. -/
  ofFloat?_eq_none_iff {x : Float} (h : x.isFinite) :
    Decimals.ofFloat? x = none ↔ roundingLimit ≤ units (magnitude x)
  /-- A decimal for a double is rounded to the nearest number of thousandths. -/
  digits_round {x : Float} {d : Decimals.Carrier} (h : x.isFinite)
    (hd : Decimals.ofFloat? x = some d) :
    let rounded := Decimals.parts (Decimals.round 3 d)
    rounded.places ≤ 3 ∧
      rounded.digits * 10 ^ (3 - rounded.places) = thousandths (units (magnitude x))
  /-- The sign stays, except that a number that becomes zero may lose it. -/
  negative_round {x : Float} {d : Decimals.Carrier} (h : x.isFinite)
    (hd : Decimals.ofFloat? x = some d)
    (hsign : (Decimals.parts (Decimals.round 3 d)).digits ≠ 0 ∨ units (magnitude x) = 0) :
    (Decimals.parts (Decimals.round 3 d)).negative = isNegative x
  /-- All digits of a decimal are written, and in front of them the sign if it is negative. -/
  text_eq (d : Decimals.Carrier) :
    ∃ row, (Decimals.text d).toList = (if (Decimals.parts d).negative then '-' :: row else row) ∧
      Numeral.decimal? row = some ⟨(Decimals.parts d).digits, -(Decimals.parts d).places⟩

/-- The text of a rounded decimal is read as the double nearest to the thousandths. -/
theorem read?_text_round [Decimals] [LawfulDecimals] {x : Float} {d : Decimals.Carrier}
    (h : x.isFinite) (hd : Decimals.ofFloat? x = some d) :
    Numeral.read? (Decimals.text (Decimals.round 3 d)).toList =
      some (ofMagnitude (Decimals.parts (Decimals.round 3 d)).negative
        (nearest (thousandths (units (magnitude x))) 1000)) := by
  obtain ⟨hplaces, hdigits⟩ := LawfulDecimals.digits_round h hd
  obtain ⟨row, htext, hrow⟩ := LawfulDecimals.text_eq (Decimals.round 3 d)
  generalize Decimals.parts (Decimals.round 3 d) = rounded at *
  have hthousand : 10 ^ rounded.places * 10 ^ (3 - rounded.places) = 1000 := by
    rw [← Nat.pow_add, Nat.add_sub_cancel' hplaces]
  have hpos : 0 < 10 ^ (3 - rounded.places) := Nat.pow_pos (by decide)
  rw [htext, Numeral.read?_of_decimal? hrow, Decimal.nearest_places _ (by omega),
    ← nearest_mul_right _ _ hpos, hdigits, hthousand]

/-! ## Exact decimals -/

namespace SignedDecimal

/-- What vanishes has no thousandths. -/
theorem thousandths_of_vanishes {count : Nat} (h : vanishes count) : thousandths count = 0 := by
  have hpower : Nat.pow 10 29 = 100000000000000000000000000000 := by decide
  have hsmall : 9 * Nat.pow 10 29 * count < 85 * unitsInOne := of_decide_eq_true h
  rw [hpower] at hsmall
  apply thousandths_eq_iff.mpr
  omega

/-- Rounding sees the same number in the decimal and in a binary fraction of as many places. -/
theorem digits_round_exact (negative : Bool) {count : Nat} (h : count ≠ 0) (places : Nat) :
    (round 3 ⟨negative, count * Nat.pow 5 places, places⟩).digits =
      (2000 * count + Nat.pow 2 places) / (2 * Nat.pow 2 places) := by
  have hten : Nat.pow 10 places = Nat.pow 2 places * Nat.pow 5 places := Nat.mul_pow 2 5 places
  have hpos : 0 < Nat.pow 5 places := Nat.pow_pos (by decide)
  have hdigits : count * Nat.pow 5 places ≠ 0 := Nat.mul_ne_zero h (Nat.ne_of_gt hpos)
  have hcount : 2 * (count * Nat.pow 5 places * 1000) + Nat.pow 2 places * Nat.pow 5 places =
      (2000 * count + Nat.pow 2 places) * Nat.pow 5 places := by ring
  rw [round, if_neg hdigits]
  show (2 * (count * Nat.pow 5 places * 1000) + Nat.pow 10 places) / (2 * Nat.pow 10 places) = _
  rw [hten, hcount, ← Nat.mul_assoc, Nat.mul_div_mul_right _ _ hpos]

theorem places_round (places : Nat) (d : SignedDecimal) : (round places d).places = places := by
  rw [round]
  split <;> rfl

/-- What does not become zero keeps its sign. -/
theorem negative_round {places : Nat} {d : SignedDecimal} (h : (round places d).digits ≠ 0) :
    (round places d).negative = d.negative := by
  rw [round] at h ⊢
  split at h
  · exact absurd rfl h
  · rename_i hdigits
    rw [if_neg hdigits]
    dsimp only at h ⊢
    rw [bne_iff_ne.mpr h, Bool.and_true]

/-- There is a zero for what vanishes, and the exact decimal for all else. -/
theorem ofFloat?_cases {x : Float} {d : SignedDecimal} (h : ofFloat? x = some d) :
    vanishes (units (magnitude x)) ∧ d = ⟨isNegative x, 0, 0⟩ ∨
      units (magnitude x) ≠ 0 ∧
        d = ⟨isNegative x, units (magnitude x) * Nat.pow 5 onePlaces, onePlaces⟩ := by
  have hzero : vanishes 0 := by decide +kernel
  rw [ofFloat?] at h
  split at h
  · cases h
  · split at h
    · rename_i hvanishes
      exact .inl ⟨hvanishes, (Option.some.inj h).symm⟩
    · rename_i hvanishes
      refine .inr ⟨?_, (Option.some.inj h).symm⟩
      intro hunits
      rw [hunits] at hvanishes
      exact hvanishes hzero

theorem isDigit_of_mem_row {d : SignedDecimal} {c : Char} (h : c ∈ d.row) : c.isDigit := by
  rcases List.mem_append.mp h with hzero | hdigit
  · rw [List.eq_of_mem_replicate hzero]
    rfl
  · exact Nat.isDigit_of_mem_toDigits (by decide) (by decide) hdigit

/-- The row reads as the number that it is written for. -/
theorem wholeNumber_row (d : SignedDecimal) : Numeral.wholeNumber d.row = d.digits := by
  show Nat.ofDigitChars 10 d.row 0 = d.digits
  rw [row, Nat.ofDigitChars_append, Nat.ofDigitChars_replicate_zero, Nat.mul_zero,
    Nat.ofDigitChars_ten_toDigits]

/-- There is a digit before the point. -/
theorem places_lt_length_row (d : SignedDecimal) : d.places < d.row.length := by
  rw [row, List.length_append, List.length_replicate]
  omega

/-- The row with its point reads as the decimal. -/
theorem decimal?_row (d : SignedDecimal) :
    let whole := d.row.length - d.places
    Numeral.decimal? (d.row.take whole ++ '.' :: d.row.drop whole) =
      some ⟨d.digits, -d.places⟩ := by
  intro whole
  have hplaces := d.places_lt_length_row
  have hfraction : (d.row.drop whole).length = d.places := by
    rw [List.length_drop]
    omega
  have hwhole : (d.row.take whole).length ≠ 0 := by
    rw [List.length_take]
    omega
  have hne : d.row.take whole ≠ [] := fun hnil => hwhole (List.length_eq_zero_iff.mpr hnil)
  rw [Numeral.decimal?_point (.inl hne) (fun c h => isDigit_of_mem_row (List.mem_of_mem_take h))
    (fun c h => isDigit_of_mem_row (List.mem_of_mem_drop h)), List.take_append_drop,
    wholeNumber_row, hfraction]

end SignedDecimal

/-- Exact decimals do what is asked of them. -/
instance : LawfulDecimals where
  ofFloat?_eq_none_iff {x} _ := by
    show SignedDecimal.ofFloat? x = none ↔ _
    rw [SignedDecimal.ofFloat?]
    split
    · rename_i hlimit
      exact iff_of_true rfl hlimit
    · rename_i hlimit
      refine iff_of_false ?_ hlimit
      split <;> exact Option.some_ne_none _
  digits_round {x d} _ hd := by
    show (SignedDecimal.round 3 d).places ≤ 3 ∧
      (SignedDecimal.round 3 d).digits * 10 ^ (3 - (SignedDecimal.round 3 d).places) = _
    rw [SignedDecimal.places_round, Nat.sub_self, Nat.pow_zero, Nat.mul_one]
    refine ⟨Nat.le_refl 3, ?_⟩
    rcases SignedDecimal.ofFloat?_cases hd with ⟨hvanishes, rfl⟩ | ⟨hne, rfl⟩
    · exact (SignedDecimal.thousandths_of_vanishes hvanishes).symm
    · rw [SignedDecimal.digits_round_exact _ hne, thousandths, unitsInOne_eq, Nat.pow_eq]
  negative_round {x d} _ hd hsign := by
    show (SignedDecimal.round 3 d).negative = _
    rcases SignedDecimal.ofFloat?_cases hd with ⟨-, rfl⟩ | ⟨hne, rfl⟩
    · rfl
    · exact SignedDecimal.negative_round (hsign.resolve_right hne)
  text_eq d := by
    refine ⟨_, ?_, SignedDecimal.decimal?_row d⟩
    exact String.toList_ofList

end Calculator.Binary64
