import Calculator.Proofs.Binary64.Decimals
import Calculator.Proofs.Binary64.Values

/-!
# Rounding to thousandths

`roundThousandths` rounds twice: to a whole number of thousandths, and this number to a double.
Both keep the order.  Where the units of the last place are small, the second rounding moves a
number by less than half a thousandth, and where they are large, the first one moves it by less
than half a unit.  The border is at two to the power 43 (`coarse`).

* `roundedMagnitude` is the magnitude of the double nearest to the thousandths, and no other double
  is closer (`roundedMagnitude_closest`).  Below the border, `thousandths_units_roundedMagnitude`
  finds the same thousandths again, and from there on `roundedMagnitude_eq_self` finds the number
  itself.  So rounding it again changes nothing (`roundedMagnitude_roundedMagnitude`).
* For decimals of any lawful kind, this is the magnitude of the result (`exists_roundThousandths`).
* `roundThousandths_idempotent` has the second rounding, and `roundThousandths_mono_odd` the order,
  the sign and the large numbers, in terms of the `value` that a double stands for.
-/

namespace Calculator.Binary64

/-! ## Where the last place is a thousandth -/

/-- The count of units from which on a unit of the last place is more than a thousandth: two to
the power 43. -/
def coarse : Nat := 2 ^ 43 * unitsInOne

theorem coarse_eq : coarse = 2 ^ (43 + onePlaces) := by rw [coarse, unitsInOne_eq, Nat.pow_add]

theorem coarse_le_roundingLimit : coarse ≤ roundingLimit :=
  Nat.mul_le_mul_right unitsInOne (by decide)

/-- Below the border, a unit of the last place is less than a thousandth. -/
theorem Scaled.mul_lt_unitsInOne {s : Scaled} (h : s.count * 2 ^ s.step < coarse) :
    1000 * 2 ^ s.step < unitsInOne := by
  have hstep : s.step + 9 < onePlaces := by
    by_contra hlarge
    have hfull : 2 ^ 52 ≤ s.count := by
      rw [← exponentBit_eq]
      exact s.exponentBit_le (by unfold onePlaces at hlarge; omega)
    have hcoarse : coarse ≤ s.count * 2 ^ s.step := by
      calc coarse = 2 ^ (43 + onePlaces) := coarse_eq
        _ ≤ 2 ^ (52 + s.step) := Nat.pow_le_pow_right (by decide) (by omega)
        _ = 2 ^ 52 * 2 ^ s.step := Nat.pow_add ..
        _ ≤ s.count * 2 ^ s.step := Nat.mul_le_mul_right _ hfull
    omega
  calc 1000 * 2 ^ s.step < 2 ^ 10 * 2 ^ s.step :=
        Nat.mul_lt_mul_of_pos_right (by decide) (Nat.two_pow_pos _)
    _ = 2 ^ (10 + s.step) := (Nat.pow_add ..).symm
    _ ≤ 2 ^ onePlaces := Nat.pow_le_pow_right (by decide) (by omega)
    _ = unitsInOne := unitsInOne_eq.symm

/-- From the border on, the step of a number is one of those with large units. -/
theorem Scaled.onePlaces_le {s : Scaled} (hcount : s.count < 2 * exponentBit)
    (h : coarse ≤ s.count * 2 ^ s.step) : onePlaces ≤ s.step + 9 := by
  have hplaces : coarse < 2 ^ (53 + s.step) := by
    calc coarse ≤ s.count * 2 ^ s.step := h
      _ < 2 ^ 53 * 2 ^ s.step := by
        refine Nat.mul_lt_mul_of_pos_right ?_ (Nat.two_pow_pos _)
        rw [exponentBit_eq] at hcount
        omega
      _ = 2 ^ (53 + s.step) := (Nat.pow_add ..).symm
  rw [coarse_eq, Nat.pow_lt_pow_iff_right (by decide)] at hplaces
  omega

/-- From the border on, a unit of the last place is at least one in 512. -/
theorem Scaled.unitsInOne_le {s : Scaled} (hcount : s.count < 2 * exponentBit)
    (h : coarse ≤ s.count * 2 ^ s.step) : unitsInOne ≤ 512 * 2 ^ s.step := by
  have hplaces := Scaled.onePlaces_le hcount h
  calc unitsInOne = 2 ^ onePlaces := unitsInOne_eq
    _ ≤ 2 ^ (9 + s.step) := Nat.pow_le_pow_right (by decide) (by omega)
    _ = 512 * 2 ^ s.step := Nat.pow_add ..

/-- There is a number at the border. -/
theorem exists_units_eq_coarse : ∃ m < infinite, units m = coarse := by
  refine ⟨(onePlaces - 9 + 1) * exponentBit + 0, by decide, ?_⟩
  rw [units_normal _ exponentBit_pos, Nat.add_zero, coarse_eq, exponentBit_eq, ← Nat.pow_add]
  exact congrArg (2 ^ ·) (by decide)

/-! ## Magnitudes -/

/-- The magnitude of the double nearest to the thousandths of a magnitude. -/
def roundedMagnitude (m : Nat) : Nat := nearest (thousandths (units m)) 1000

theorem roundedMagnitude_mono : Monotone roundedMagnitude := fun _ _ h =>
  nearest_mono (thousandths_mono (units_strictMono.monotone h)) (by decide)

theorem roundedMagnitude_eq_zero {m : Nat} (h : thousandths (units m) = 0) :
    roundedMagnitude m = 0 := by
  rw [roundedMagnitude, h, nearest_zero (by decide)]

/-- From the border on, the thousandths of a number are on its step. -/
theorem Scaled.onStep_thousandths {s : Scaled} (hcount : s.count < 2 * exponentBit)
    (h : coarse ≤ s.count * 2 ^ s.step) :
    OnStep (thousandths (s.count * 2 ^ s.step) * unitsInOne) 1000 s.step := by
  have hplaces := Scaled.onePlaces_le hcount h
  have hunit := Scaled.unitsInOne_le hcount h
  have hfull := s.exponentBit_le (by unfold onePlaces at hplaces; omega)
  obtain ⟨hlower, hupper⟩ := thousandths_eq_iff.mp (rfl : thousandths (s.count * 2 ^ s.step) = _)
  generalize ht : thousandths (s.count * 2 ^ s.step) = t at hlower hupper
  have hproduct : s.count * (1000 * 2 ^ s.step) = 1000 * (s.count * 2 ^ s.step) := by ring
  refine ⟨?_, fun _ => ?_⟩
  · have hnext := Nat.mul_le_mul_right (1000 * 2 ^ s.step) (Nat.succ_le_of_lt hcount)
    rw [Nat.succ_mul, hproduct] at hnext
    omega
  · rcases Nat.eq_or_lt_of_le hfull with hleast | hgreater
    · -- The least number of a step is a power of two, and from the border on a whole number.
      have hwhole : s.count * 2 ^ s.step = 2 ^ (52 + s.step - onePlaces) * unitsInOne := by
        rw [← hleast, exponentBit_eq, unitsInOne_eq, ← Nat.pow_add, ← Nat.pow_add,
          Nat.sub_add_cancel (by omega)]
      rw [hwhole, thousandths_mul_unitsInOne] at ht
      rw [hleast, hproduct, hwhole, ← ht, Nat.mul_assoc]
    · have hnext := Nat.mul_le_mul_right (1000 * 2 ^ s.step) (Nat.succ_le_of_lt hgreater)
      rw [Nat.succ_mul, hproduct] at hnext
      omega

/-- From the border on, the number of thousandths is less than half a unit away, and the nearest
double is the number itself. -/
theorem roundedMagnitude_eq_self {m : Nat} (hfinite : m ≤ infinite) (h : coarse ≤ units m) :
    roundedMagnitude m = m := by
  have hcount := Scaled.count_ofMagnitude_lt m
  have hmagnitude := Scaled.magnitude_ofMagnitude m
  generalize Scaled.ofMagnitude m = s at hcount hmagnitude
  subst hmagnitude
  unfold roundedMagnitude
  rw [Scaled.units_magnitude] at h ⊢
  have honStep := Scaled.onStep_thousandths hcount h
  have hunit := Scaled.unitsInOne_le hcount h
  have hpos := unitsInOne_pos
  obtain ⟨hlower, hupper⟩ := thousandths_eq_iff.mp (rfl : thousandths (s.count * 2 ^ s.step) = _)
  have hproduct : s.count * (1000 * 2 ^ s.step) = 1000 * (s.count * 2 ^ s.step) := by ring
  rw [nearest_eq _ (by decide), rounded_magnitude_eq _ s honStep (by omega) (by omega)]
  exact min_eq_left hfinite

/-- A finite number stays finite. -/
theorem roundedMagnitude_lt_infinite {m : Nat} (h : m < infinite) :
    roundedMagnitude m < infinite := by
  rcases Nat.le_total coarse (units m) with hlarge | hsmall
  · rw [roundedMagnitude_eq_self (Nat.le_of_lt h) hlarge]
    exact h
  · obtain ⟨border, hborder, hunits⟩ := exists_units_eq_coarse
    rw [← hunits, units_strictMono.le_iff_le] at hsmall
    calc roundedMagnitude m ≤ roundedMagnitude border := roundedMagnitude_mono hsmall
      _ = border := roundedMagnitude_eq_self (Nat.le_of_lt hborder) (Nat.le_of_eq hunits.symm)
      _ < infinite := hborder

/-- No double is closer to the thousandths of a finite number. -/
theorem roundedMagnitude_closest {m : Nat} (h : m < infinite) (m' : Nat) :
    gap (thousandths (units m)) 1000 (roundedMagnitude m) ≤ gap (thousandths (units m)) 1000 m' :=
  (nearest_closest (by decide) (roundedMagnitude_lt_infinite h) m').1

/-- Below the border, the nearest double is less than half a thousandth away, and its thousandths
are those that it was found from. -/
theorem thousandths_units_roundedMagnitude {m : Nat} (h : m < infinite)
    (hsmall : units (roundedMagnitude m) < coarse) :
    thousandths (units (roundedMagnitude m)) = thousandths (units m) := by
  have hfinite := roundedMagnitude_lt_infinite h
  unfold roundedMagnitude at hfinite hsmall ⊢
  have hden : 0 < 1000 := by decide
  obtain ⟨hlower, hupper⟩ := rounded_close (thousandths (units m) * unitsInOne) hden
  rw [nearest_eq _ hden] at hfinite hsmall ⊢
  generalize rounded (thousandths (units m) * unitsInOne) hden = s at *
  rw [min_eq_left (by omega), Scaled.units_magnitude] at hsmall ⊢
  have hunit := Scaled.mul_lt_unitsInOne hsmall
  have hproduct : s.count * (1000 * 2 ^ s.step) = 1000 * (s.count * 2 ^ s.step) := by ring
  apply thousandths_eq_iff.mpr
  omega

/-- Rounding a magnitude once more changes nothing. -/
theorem roundedMagnitude_roundedMagnitude {m : Nat} (h : m < infinite) :
    roundedMagnitude (roundedMagnitude m) = roundedMagnitude m := by
  rcases Nat.lt_or_ge (units (roundedMagnitude m)) coarse with hsmall | hlarge
  · have hsame := thousandths_units_roundedMagnitude h hsmall
    rw [roundedMagnitude, hsame, roundedMagnitude]
  · exact roundedMagnitude_eq_self (Nat.le_of_lt (roundedMagnitude_lt_infinite h)) hlarge

/-! ## Doubles -/

section Doubles

variable [Decimals] [LawfulDecimals]

omit [LawfulDecimals] in
theorem roundThousandths_of_not_isFinite {x : Float} (h : ¬ x.isFinite) :
    roundThousandths x = x := if_neg h

/-- A finite number has the magnitude of the double nearest to its thousandths, and its sign unless
it is rounded to zero. -/
theorem exists_roundThousandths {x : Float} (h : x.isFinite) :
    ∃ negative, roundThousandths x = ofMagnitude negative (roundedMagnitude (magnitude x)) ∧
      (roundedMagnitude (magnitude x) ≠ 0 ∨ magnitude x = 0 → negative = isNegative x) := by
  rw [roundThousandths, if_pos h]
  cases hd : Decimals.ofFloat? x with
  | none =>
    have hfinite := Nat.le_of_lt (isFinite_iff.mp h)
    have hlimit := (LawfulDecimals.ofFloat?_eq_none_iff h).mp hd
    rw [roundedMagnitude_eq_self hfinite (Nat.le_trans coarse_le_roundingLimit hlimit)]
    exact ⟨_, (ofMagnitude_magnitude hfinite).symm, fun _ => rfl⟩
  | some d =>
    refine ⟨(Decimals.parts (Decimals.round 3 d)).negative, ?_, ?_⟩
    · rw [Option.map_some, Option.bind_some, read?_text_round h hd, Option.getD_some,
        roundedMagnitude]
    · intro hsign
      apply LawfulDecimals.negative_round h hd
      rcases hsign with hne | hzero
      · left
        intro hdigits
        obtain ⟨-, hthousandths⟩ := LawfulDecimals.digits_round h hd
        rw [hdigits, Nat.zero_mul] at hthousandths
        exact hne (roundedMagnitude_eq_zero hthousandths.symm)
      · right
        rw [hzero, units_zero]

theorem roundThousandths_eq_ofMagnitude {x : Float} (h : x.isFinite)
    (hne : roundedMagnitude (magnitude x) ≠ 0) :
    roundThousandths x = ofMagnitude (isNegative x) (roundedMagnitude (magnitude x)) := by
  obtain ⟨negative, hround, hsign⟩ := exists_roundThousandths h
  rw [hround, hsign (.inl hne)]

/-- A double is left as it is if its magnitude is. -/
theorem roundThousandths_eq_self {x : Float} (h : x.isFinite)
    (hself : roundedMagnitude (magnitude x) = magnitude x) : roundThousandths x = x := by
  obtain ⟨negative, hround, hsign⟩ := exists_roundThousandths h
  have hnegative : negative = isNegative x := by
    apply hsign
    rw [hself]
    exact (Decidable.em (magnitude x = 0)).symm
  rw [hround, hself, hnegative, ofMagnitude_magnitude (Nat.le_of_lt (isFinite_iff.mp h))]

theorem magnitude_roundThousandths {x : Float} (h : x.isFinite) :
    magnitude (roundThousandths x) = roundedMagnitude (magnitude x) := by
  have hlt := roundedMagnitude_lt_infinite (isFinite_iff.mp h)
  obtain ⟨negative, hround, -⟩ := exists_roundThousandths h
  rw [hround, magnitude_ofMagnitude _ (Nat.le_of_lt hlt)]

/-- A finite double is rounded to a finite one. -/
theorem isFinite_roundThousandths {x : Float} (h : x.isFinite) : (roundThousandths x).isFinite := by
  rw [isFinite_iff, magnitude_roundThousandths h]
  exact roundedMagnitude_lt_infinite (isFinite_iff.mp h)

/-- Rounding to thousandths once more changes nothing, whatever double it is and whatever decimals
it is rounded in.  Equal doubles have the same bits, since there is one NaN. -/
theorem roundThousandths_idempotent (x : Float) :
    roundThousandths (roundThousandths x) = roundThousandths x := by
  by_cases h : x.isFinite
  · apply roundThousandths_eq_self (isFinite_roundThousandths h)
    rw [magnitude_roundThousandths h, roundedMagnitude_roundedMagnitude (isFinite_iff.mp h)]
  · rw [roundThousandths_of_not_isFinite h, roundThousandths_of_not_isFinite h]

end Doubles

/-- A tie, rounded away from zero to thousandths that no double is equal to. -/
theorem roundThousandths_idempotent_tie :
    let x := Float.ofBits 0xBFB0000000000000
    LawfulDecimals ∧ roundThousandths x = Float.ofBits 0xBFB020C49BA5E354 ∧
      roundThousandths (roundThousandths x) = roundThousandths x := by
  intro x
  have hrounded : roundThousandths x = Float.ofBits 0xBFB020C49BA5E354 := by decide +kernel
  exact ⟨inferInstance, hrounded, roundThousandths_idempotent x⟩

/-! ## Order and sign -/

theorem roundedMagnitude_zero : roundedMagnitude 0 = 0 :=
  roundedMagnitude_eq_zero (by decide +kernel)

theorem coarse_le_units_iff {x : Float} : coarse ≤ units (magnitude x) ↔ 2 ^ 43 ≤ |value x| := by
  have hpos : (0 : ℚ) < unitsInOne := Nat.cast_pos.mpr unitsInOne_pos
  rw [abs_value, le_div_iff₀ hpos, coarse, ← Nat.cast_le (α := ℚ), Nat.cast_mul, Nat.cast_pow,
    Nat.cast_ofNat]

section Order

variable [Decimals] [LawfulDecimals]

/-- What is rounded has the sign that it had, except that a zero may lose it. -/
theorem signed_roundThousandths {x : Float} (h : x.isFinite) {f : Nat → Nat} (hzero : f 0 = 0) :
    signed (isNegative (roundThousandths x)) (f (magnitude (roundThousandths x))) =
      signed (isNegative x) (f (roundedMagnitude (magnitude x))) := by
  have hle := Nat.le_of_lt (roundedMagnitude_lt_infinite (isFinite_iff.mp h))
  rw [magnitude_roundThousandths h]
  by_cases hmagnitude : roundedMagnitude (magnitude x) = 0
  · rw [hmagnitude, hzero, signed_zero, signed_zero]
  · rw [roundThousandths_eq_ofMagnitude h hmagnitude, isNegative_ofMagnitude _ hle]

theorem rank_roundThousandths {x : Float} (h : x.isFinite) :
    rank (roundThousandths x) = signed (isNegative x) (roundedMagnitude (magnitude x)) :=
  signed_roundThousandths h (f := fun m => m) rfl

/-- The number that is left by rounding. -/
theorem value_roundThousandths {x : Float} (h : x.isFinite) :
    value (roundThousandths x) =
      signed (isNegative x) (units (roundedMagnitude (magnitude x))) / unitsInOne := by
  rw [value, signed_roundThousandths h units_zero]

/-- Rounding keeps the order of finite numbers, on both sides of the limit and across it. -/
theorem value_roundThousandths_mono {x y : Float} (hx : x.isFinite) (hy : y.isFinite)
    (h : value x ≤ value y) : value (roundThousandths x) ≤ value (roundThousandths y) := by
  rw [value_le_value_iff] at h ⊢
  rw [rank_roundThousandths hx, rank_roundThousandths hy]
  exact signed_mono roundedMagnitude_mono roundedMagnitude_zero h

theorem value_roundThousandths_neg {x : Float} (h : x.isFinite) :
    value (roundThousandths (-x)) = -value (roundThousandths x) := by
  have hle := Nat.le_of_lt (isFinite_iff.mp h)
  rw [value_roundThousandths (isFinite_neg h), value_roundThousandths h, magnitude_neg hle,
    isNegative_neg hle, signed_not, Int.cast_neg, neg_div]

/-- Unless the result is a zero, the sign may be changed before rounding or after it. -/
theorem roundThousandths_neg {x : Float} (h : x.isFinite)
    (hne : value (roundThousandths x) ≠ 0) : roundThousandths (-x) = -roundThousandths x := by
  have hle := Nat.le_of_lt (isFinite_iff.mp h)
  have hrounded := Nat.le_of_lt (roundedMagnitude_lt_infinite (isFinite_iff.mp h))
  have hmagnitude : roundedMagnitude (magnitude x) ≠ 0 := by
    intro hzero
    rw [value_roundThousandths h, hzero, units_zero, signed_zero, Int.cast_zero, zero_div] at hne
    exact hne rfl
  have hleft : roundThousandths (-x) =
      ofMagnitude (!isNegative x) (roundedMagnitude (magnitude x)) := by
    rw [roundThousandths_eq_ofMagnitude (isFinite_neg h), magnitude_neg hle, isNegative_neg hle]
    rwa [magnitude_neg hle]
  rw [hleft, roundThousandths_eq_ofMagnitude h hmagnitude, neg_eq_ofMagnitude,
    magnitude_ofMagnitude _ hrounded, isNegative_ofMagnitude _ hrounded]
  rwa [magnitude_ofMagnitude _ hrounded]

/-- Rounding to thousandths keeps finite numbers finite and in their order, whether or not they are
below the limit.  It is the same for both signs, up to that of a zero, and from two to the power 43
on it leaves numbers as they are. -/
theorem roundThousandths_mono_odd {x y : Float} (hx : x.isFinite) (hy : y.isFinite) :
    (roundThousandths x).isFinite ∧
      (value x ≤ value y → value (roundThousandths x) ≤ value (roundThousandths y) ∧
        roundThousandths x ≤ roundThousandths y) ∧
      value (roundThousandths (-x)) = -value (roundThousandths x) ∧
      (value (roundThousandths x) ≠ 0 → roundThousandths (-x) = -roundThousandths x) ∧
      (2 ^ 43 ≤ |value x| → roundThousandths x = x) := by
  refine ⟨isFinite_roundThousandths hx, fun hle => ?_, value_roundThousandths_neg hx,
    roundThousandths_neg hx, fun hlarge => ?_⟩
  · have hvalue := value_roundThousandths_mono hx hy hle
    exact ⟨hvalue, (le_iff_value_le (isFinite_roundThousandths hx)
      (isFinite_roundThousandths hy)).mpr hvalue⟩
  · apply roundThousandths_eq_self hx
    exact roundedMagnitude_eq_self (Nat.le_of_lt (isFinite_iff.mp hx))
      (coarse_le_units_iff.mpr hlarge)

end Order

/-- The greatest double below the limit of two to the power 96, and the limit. -/
theorem roundThousandths_mono_odd_limit :
    let x := Float.ofBits 0x45EFFFFFFFFFFFFF
    let y := Float.ofBits 0x45F0000000000000
    x.isFinite ∧ y.isFinite ∧ value x ≤ value y ∧ value y = 2 ^ 96 ∧
      roundThousandths x ≤ roundThousandths y ∧ roundThousandths (-x) = -roundThousandths x ∧
      roundThousandths x = x := by
  intro x y
  have hx : x.isFinite := by decide +kernel
  have hy : y.isFinite := by decide +kernel
  have hle : value x ≤ value y := by decide +kernel
  obtain ⟨-, hmono, -, hodd, hlarge⟩ := roundThousandths_mono_odd hx hy
  have hself : roundThousandths x = x := hlarge (by decide +kernel)
  refine ⟨hx, hy, hle, by decide +kernel, (hmono hle).2, hodd ?_, hself⟩
  rw [hself]
  decide +kernel

end Calculator.Binary64
