import Calculator.Binary64.Units
import Mathlib.Order.Monotone.Basic
import Mathlib.Tactic.Ring

/-!
# The nearest double

`Binary64.nearest` rounds a fraction to a number of units of a step, and lays step and number
side by side.

* `roundEven_close` and `roundEven_eq_of_close` say what rounding to a whole number does, and
  when a number is the result.
* `Scaled` is a number of units of a step that has the places of a double.  Its pattern is read
  back as this number (`Scaled.units_magnitude`), a number that is just too large included, and
  every pattern is one of these (`Scaled.magnitude_ofMagnitude`).  So greater patterns stand for
  greater numbers (`units_strictMono`).
* `OnStep` says which fractions are rounded on a step.  There is one step for each of them
  (`onStep_stepOf`, `OnStep.unique`), and greater fractions have no lower steps (`OnStep.le`).

These are put together: no double is closer than the nearest one, and a tie goes to the even
pattern (`nearest_closest`); rounding keeps the order (`nearest_mono`); and a fraction that is less
than half a unit away from a double is rounded to it (`rounded_magnitude_eq`).
-/

namespace Calculator.Binary64

/-! ## Rounding to a whole number -/

/-- What is rounded is at most half a step away. -/
theorem roundEven_close (num : Nat) {den : Nat} (hden : 0 < den) :
    2 * (roundEven num den * den) ≤ 2 * num + den ∧
      2 * num ≤ 2 * (roundEven num den * den) + den := by
  have hdiv := Nat.div_add_mod' num den
  have hmod := Nat.mod_lt num hden
  unfold roundEven
  dsimp only
  split
  · omega
  · rw [Nat.add_mul]
    omega

/-- Multiples of different numbers are at least a step apart. -/
theorem mul_apart {k n : Nat} (h : k ≠ n) (den : Nat) :
    k * den + den ≤ n * den ∨ n * den + den ≤ k * den := by
  rw [← Nat.succ_mul, ← Nat.succ_mul]
  exact (Nat.lt_or_gt_of_ne h).imp (Nat.mul_le_mul_right den) (Nat.mul_le_mul_right den)

/-- There is no other whole number less than half a step away. -/
theorem roundEven_eq_of_close {num den n : Nat} (hle : 2 * (n * den) < 2 * num + den)
    (hge : 2 * num < 2 * (n * den) + den) : roundEven num den = n := by
  have hden : 0 < den := by omega
  have hclose := roundEven_close num hden
  by_contra hne
  have hapart := mul_apart hne den
  omega

/-- No whole number is closer, and where another one is as close, the result is even. -/
theorem roundEven_closest (num : Nat) {den : Nat} (hden : 0 < den) (k : Nat) :
    ((num : Int) - (roundEven num den * den : Nat)).natAbs ≤
        ((num : Int) - (k * den : Nat)).natAbs := by
  obtain ⟨hbelow, habove⟩ := roundEven_close num hden
  by_cases hk : k = roundEven num den
  · rw [hk]
  · have hapart := mul_apart hk den
    omega

/-- Where another whole number is as close, the result is even. -/
theorem roundEven_even_of_tie {num den k : Nat} (hden : 0 < den) (hk : k ≠ roundEven num den)
    (htie : ((num : Int) - (roundEven num den * den : Nat)).natAbs =
      ((num : Int) - (k * den : Nat)).natAbs) : roundEven num den % 2 = 0 := by
  obtain ⟨hbelow, habove⟩ := roundEven_close num hden
  have hapart := mul_apart hk den
  have hdiv := Nat.div_add_mod' num den
  have hmod := Nat.mod_lt num hden
  have hhalf : 2 * num = 2 * (roundEven num den * den) + den ∨
      2 * (roundEven num den * den) = 2 * num + den := by omega
  unfold roundEven at hhalf ⊢
  dsimp only at hhalf ⊢
  split
  · rename_i hcase
    rw [if_pos hcase] at hhalf
    omega
  · rename_i hcase
    rw [if_neg hcase, Nat.add_one_mul (num / den) den] at hhalf
    omega

theorem roundEven_mono {num num' : Nat} (h : num ≤ num') (den : Nat) :
    roundEven num den ≤ roundEven num' den := by
  have hdiv := Nat.div_add_mod num den
  have hdiv' := Nat.div_add_mod num' den
  have hquotient : num / den ≤ num' / den := Nat.div_le_div_right h
  unfold roundEven
  dsimp only
  rcases Nat.eq_or_lt_of_le hquotient with heq | hlt
  · -- Only the rests differ.
    rw [heq] at hdiv ⊢
    split <;> split <;> omega
  · split <;> split <;> omega

theorem roundEven_mul (n : Nat) {den : Nat} (hden : 0 < den) : roundEven (n * den) den = n :=
  roundEven_eq_of_close (by omega) (by omega)

/-- A common factor makes no difference. -/
theorem roundEven_mul_right (num den : Nat) {k : Nat} (hk : 0 < k) :
    roundEven (num * k) (den * k) = roundEven num den := by
  have hdiv : num * k / (den * k) = num / den := Nat.mul_div_mul_right _ _ hk
  have hmod : num * k % (den * k) = num % den * k := Nat.mul_mod_mul_right k num den
  have hlt : 2 * (num % den * k) < den * k ↔ 2 * (num % den) < den := by
    rw [← Nat.mul_assoc, Nat.mul_lt_mul_right hk]
  have heq : 2 * (num % den * k) = den * k ↔ 2 * (num % den) = den := by
    rw [← Nat.mul_assoc, Nat.mul_left_inj (Nat.ne_of_gt hk)]
  simp only [roundEven, hdiv, hmod, hlt, heq]

/-! ## Units of a magnitude -/

theorem unitsInOne_pos : 0 < unitsInOne := by decide +kernel

theorem unitsInOne_eq : unitsInOne = 2 ^ onePlaces := by decide +kernel

theorem exponentBit_pos : 0 < exponentBit := by decide

theorem units_zero : units 0 = 0 := rfl

/-- Below the smallest normal number, a magnitude is its number of units. -/
theorem units_of_lt {m : Nat} (h : m < exponentBit) : units m = m := by
  unfold units
  dsimp only
  rw [Nat.div_eq_of_lt h, if_pos rfl, Nat.mod_eq_of_lt h]

/-- A normal number has its leading place, and a unit that doubles with the exponent. -/
theorem units_normal (step : Nat) {fraction : Nat} (h : fraction < exponentBit) :
    units ((step + 1) * exponentBit + fraction) = (exponentBit + fraction) * 2 ^ step := by
  unfold units
  dsimp only
  rw [Nat.add_comm, Nat.add_mul_div_right _ _ exponentBit_pos, Nat.add_mul_mod_self_right,
    Nat.div_eq_of_lt h, Nat.mod_eq_of_lt h, if_neg (by omega), Nat.zero_add,
    Nat.add_sub_cancel, Nat.pow_eq]

/-- A number of units of a step, with no more places than a double has, and with no fewer above
the lowest step. -/
structure Scaled where
  step : Nat
  count : Nat
  count_le : count ≤ 2 * exponentBit
  exponentBit_le : step ≠ 0 → exponentBit ≤ count

namespace Scaled

/-- The pattern of a number on its step. -/
def magnitude (s : Scaled) : Nat := s.step * exponentBit + s.count

/-- The pattern stands for its number.  One that is just too large carries into the exponent. -/
theorem units_magnitude (s : Scaled) : units s.magnitude = s.count * 2 ^ s.step := by
  obtain ⟨step, count, hle, hge⟩ := s
  unfold magnitude
  dsimp only
  rcases Nat.lt_or_ge count exponentBit with hlt | hnormal
  · obtain rfl : step = 0 := by
      by_contra hstep
      exact absurd (hge hstep) (by omega)
    rw [Nat.zero_mul, Nat.zero_add, units_of_lt hlt, Nat.pow_zero, Nat.mul_one]
  · obtain ⟨fraction, rfl⟩ := Nat.exists_eq_add_of_le hnormal
    rcases Nat.eq_or_lt_of_le hle with htwice | hlt
    · obtain rfl : fraction = exponentBit := by omega
      have hsum : step * exponentBit + (exponentBit + exponentBit) =
          (step + 1 + 1) * exponentBit + 0 := by ring
      rw [hsum, units_normal _ exponentBit_pos]
      ring
    · have hsum : step * exponentBit + (exponentBit + fraction) =
          (step + 1) * exponentBit + fraction := by ring
      rw [hsum, units_normal _ (by omega)]

/-- The number of a pattern, on its step. -/
def ofMagnitude (m : Nat) : Scaled where
  step := m / exponentBit - 1
  count := if m / exponentBit = 0 then m % exponentBit else exponentBit + m % exponentBit
  count_le := by
    have := Nat.mod_lt m exponentBit_pos
    split <;> omega
  exponentBit_le := by
    intro hstep
    rw [if_neg (by omega)]
    exact Nat.le_add_right _ _

theorem step_ofMagnitude (m : Nat) : (ofMagnitude m).step = m / exponentBit - 1 := rfl

theorem count_ofMagnitude (m : Nat) :
    (ofMagnitude m).count =
      if m / exponentBit = 0 then m % exponentBit else exponentBit + m % exponentBit := rfl

theorem count_ofMagnitude_lt (m : Nat) : (ofMagnitude m).count < 2 * exponentBit := by
  have hmod := Nat.mod_lt m exponentBit_pos
  rw [count_ofMagnitude]
  split <;> omega

theorem magnitude_ofMagnitude (m : Nat) : (ofMagnitude m).magnitude = m := by
  have hdiv := Nat.div_add_mod' m exponentBit
  rw [magnitude, step_ofMagnitude, count_ofMagnitude]
  split
  · rename_i hzero
    rw [hzero] at hdiv ⊢
    omega
  · rename_i hpos
    obtain ⟨step, hstep⟩ := Nat.exists_eq_succ_of_ne_zero hpos
    rw [hstep, Nat.succ_mul] at hdiv
    rw [hstep, Nat.succ_sub_one]
    omega

end Scaled

/-- Greater patterns stand for greater numbers. -/
theorem units_strictMono : StrictMono units := by
  refine strictMono_nat_of_lt_succ fun m => ?_
  have hcount := Scaled.count_ofMagnitude_lt m
  have hmagnitude := Scaled.magnitude_ofMagnitude m
  generalize Scaled.ofMagnitude m = s at hcount hmagnitude
  subst hmagnitude
  -- The next number is one more on the same step.
  have hnext : s.magnitude + 1 = Scaled.magnitude
      ⟨s.step, s.count + 1, hcount, fun h => Nat.le_succ_of_le (s.exponentBit_le h)⟩ :=
    Nat.add_assoc _ _ _
  rw [hnext, Scaled.units_magnitude, Scaled.units_magnitude]
  exact Nat.mul_lt_mul_of_pos_right (Nat.lt_succ_self _) (Nat.two_pow_pos _)

/-! ## Steps -/

/-- A number is a whole number of units of any step, or less than the least number on it. -/
theorem units_onStep (m step : Nat) :
    (∃ k, units m = k * 2 ^ step) ∨ (step ≠ 0 ∧ units m < exponentBit * 2 ^ step) := by
  have hcount := Scaled.count_ofMagnitude_lt m
  have hmagnitude := Scaled.magnitude_ofMagnitude m
  generalize Scaled.ofMagnitude m = s at hcount hmagnitude
  subst hmagnitude
  rw [Scaled.units_magnitude]
  rcases Nat.lt_or_ge s.step step with hlt | hle
  · refine .inr ⟨by omega, ?_⟩
    calc s.count * 2 ^ s.step < 2 * exponentBit * 2 ^ s.step :=
          Nat.mul_lt_mul_of_pos_right hcount (Nat.two_pow_pos _)
      _ = exponentBit * 2 ^ (s.step + 1) := by ring
      _ ≤ exponentBit * 2 ^ step :=
          Nat.mul_le_mul_left _ (Nat.pow_le_pow_right (by decide) hlt)
  · refine .inl ⟨s.count * 2 ^ (s.step - step), ?_⟩
    rw [Nat.mul_assoc, ← Nat.pow_add, Nat.sub_add_cancel hle]

/-- Whether a fraction of units is at least the least number of a step, and less than the least one
of the next step. -/
def OnStep (num den step : Nat) : Prop :=
  num < 2 * exponentBit * (den * 2 ^ step) ∧ (step ≠ 0 → exponentBit * (den * 2 ^ step) ≤ num)

/-- The step that a fraction is rounded on: the number of its places that are too many. -/
def stepOf (num den : Nat) : Nat := (num / den).log2 - 52

theorem onStep_stepOf (num : Nat) {den : Nat} (hden : 0 < den) :
    OnStep num den (stepOf num den) := by
  have hbit : exponentBit = 2 ^ 52 := by decide
  constructor
  · have hplaces : num / den < 2 ^ (stepOf num den + 53) := by
      refine Nat.lt_of_lt_of_le Nat.lt_log2_self (Nat.pow_le_pow_right (by decide) ?_)
      unfold stepOf
      omega
    rw [Nat.div_lt_iff_lt_mul hden] at hplaces
    calc num < 2 ^ (stepOf num den + 53) * den := hplaces
      _ = 2 * exponentBit * (den * 2 ^ stepOf num den) := by
        rw [Nat.pow_add, hbit]
        ring
  · intro hstep
    have hlog : stepOf num den + 52 = (num / den).log2 := by
      unfold stepOf at hstep ⊢
      omega
    have hne : num / den ≠ 0 := by
      intro hzero
      rw [hzero, Nat.log2_zero] at hlog
      omega
    have hplaces : 2 ^ (stepOf num den + 52) ≤ num / den := by
      rw [hlog]
      exact Nat.log2_self_le hne
    rw [Nat.le_div_iff_mul_le hden] at hplaces
    calc exponentBit * (den * 2 ^ stepOf num den) = 2 ^ (stepOf num den + 52) * den := by
          rw [Nat.pow_add, hbit]
          ring
      _ ≤ num := hplaces

/-- A greater fraction is on no lower step. -/
theorem OnStep.le {num num' den step step' : Nat} (h : OnStep num den step)
    (h' : OnStep num' den step') (hle : num ≤ num') : step ≤ step' := by
  by_contra hlt
  have hnum := h.2 (by omega)
  have hnum' := h'.1
  have hsteps : 2 * 2 ^ step' ≤ 2 ^ step := by
    rw [← Nat.pow_succ']
    exact Nat.pow_le_pow_right (by decide) (by omega)
  have hbounds : 2 * exponentBit * (den * 2 ^ step') ≤ exponentBit * (den * 2 ^ step) := by
    calc 2 * exponentBit * (den * 2 ^ step') = exponentBit * den * (2 * 2 ^ step') := by ring
      _ ≤ exponentBit * den * 2 ^ step := Nat.mul_le_mul_left _ hsteps
      _ = exponentBit * (den * 2 ^ step) := by ring
  omega

theorem OnStep.unique {num den step step' : Nat} (h : OnStep num den step)
    (h' : OnStep num den step') : step = step' :=
  Nat.le_antisymm (h.le h' (Nat.le_refl _)) (h'.le h (Nat.le_refl _))

/-! ## Rounding to a double -/

/-- A fraction of units, rounded on its step. -/
def rounded (num : Nat) {den : Nat} (hden : 0 < den) : Scaled where
  step := stepOf num den
  count := roundEven num (den * 2 ^ stepOf num den)
  count_le := by
    rw [← roundEven_mul (2 * exponentBit) (Nat.mul_pos hden (Nat.two_pow_pos (stepOf num den)))]
    exact roundEven_mono (Nat.le_of_lt (onStep_stepOf num hden).1) _
  exponentBit_le := by
    intro hstep
    rw [← roundEven_mul exponentBit (Nat.mul_pos hden (Nat.two_pow_pos (stepOf num den)))]
    exact roundEven_mono ((onStep_stepOf num hden).2 hstep) _

theorem nearest_eq (num : Nat) {den : Nat} (hden : 0 < den) :
    nearest num den = min (rounded (num * unitsInOne) hden).magnitude infinite := by
  unfold nearest
  simp only [Nat.pow_eq]
  rfl

/-- The rounded number is at most half a unit of its step away. -/
theorem rounded_close (num : Nat) {den : Nat} (hden : 0 < den) :
    let s := rounded num hden
    2 * (s.count * (den * 2 ^ s.step)) ≤ 2 * num + den * 2 ^ s.step ∧
      2 * num ≤ 2 * (s.count * (den * 2 ^ s.step)) + den * 2 ^ s.step :=
  roundEven_close num (Nat.mul_pos hden (Nat.two_pow_pos _))

/-- A fraction less than half a unit away from a number on its step is rounded to it. -/
theorem rounded_magnitude_eq {num den : Nat} (hden : 0 < den) (s : Scaled)
    (hstep : OnStep num den s.step)
    (hle : 2 * (s.count * (den * 2 ^ s.step)) < 2 * num + den * 2 ^ s.step)
    (hge : 2 * num < 2 * (s.count * (den * 2 ^ s.step)) + den * 2 ^ s.step) :
    (rounded num hden).magnitude = s.magnitude := by
  have hsame : stepOf num den = s.step := (onStep_stepOf num hden).unique hstep
  change stepOf num den * exponentBit + roundEven num (den * 2 ^ stepOf num den) =
    s.step * exponentBit + s.count
  rw [hsame, roundEven_eq_of_close hle hge]

theorem magnitude_rounded_mono {num num' : Nat} (h : num ≤ num') {den : Nat} (hden : 0 < den) :
    (rounded num hden).magnitude ≤ (rounded num' hden).magnitude := by
  have hsteps : stepOf num den ≤ stepOf num' den :=
    (onStep_stepOf num hden).le (onStep_stepOf num' hden) h
  rcases Nat.eq_or_lt_of_le hsteps with heq | hlt
  · change stepOf num den * exponentBit + roundEven num (den * 2 ^ stepOf num den) ≤
      stepOf num' den * exponentBit + roundEven num' (den * 2 ^ stepOf num' den)
    rw [heq]
    exact Nat.add_le_add_left (roundEven_mono h _) _
  · -- The greatest number of a step is at most the least one of the next step.
    have hle := (rounded num hden).count_le
    have hge : exponentBit ≤ (rounded num' hden).count :=
      (rounded num' hden).exponentBit_le (Nat.ne_of_gt (Nat.zero_lt_of_lt hlt))
    have hnext : (stepOf num den + 1) * exponentBit ≤ stepOf num' den * exponentBit :=
      Nat.mul_le_mul_right exponentBit hlt
    rw [Nat.add_mul] at hnext
    change stepOf num den * exponentBit + (rounded num hden).count ≤
      stepOf num' den * exponentBit + (rounded num' hden).count
    omega

/-- Rounding keeps the order. -/
theorem nearest_mono {num num' : Nat} (h : num ≤ num') {den : Nat} (hden : 0 < den) :
    nearest num den ≤ nearest num' den := by
  rw [nearest_eq _ hden, nearest_eq _ hden]
  exact min_le_min_right _ (magnitude_rounded_mono (Nat.mul_le_mul_right _ h) hden)

/-- Equal fractions have the same nearest double. -/
theorem nearest_mul_right (num den : Nat) {k : Nat} (hk : 0 < k) :
    nearest (num * k) (den * k) = nearest num den := by
  have hscaled : num * k * unitsInOne = num * unitsInOne * k := Nat.mul_right_comm ..
  have hstep (step : Nat) : den * k * Nat.pow 2 step = den * Nat.pow 2 step * k :=
    Nat.mul_right_comm ..
  unfold nearest
  dsimp only
  rw [hscaled, Nat.mul_div_mul_right _ _ hk, hstep, roundEven_mul_right _ _ hk]

theorem nearest_zero {den : Nat} (hden : 0 < den) : nearest 0 den = 0 := by
  simp [nearest, roundEven, hden]

/-- How far a fraction is from the double with a magnitude, in parts of a unit of which the
denominator makes one. -/
def gap (num den m : Nat) : Nat := ((num * unitsInOne : Nat) - (units m * den : Nat) : Int).natAbs

/-- No double is closer to a fraction than the one it is rounded to, and where another one is as
close, the pattern is even. -/
theorem nearest_closest {num den : Nat} (hden : 0 < den) (hfinite : nearest num den < infinite)
    (m : Nat) :
    gap num den (nearest num den) ≤ gap num den m ∧
      (gap num den (nearest num den) = gap num den m → m ≠ nearest num den →
        nearest num den % 2 = 0) := by
  unfold gap
  rw [nearest_eq _ hden] at hfinite ⊢
  rw [min_eq_left (by omega)]
  generalize num * unitsInOne = scaled
  have hstep := Nat.mul_pos hden (Nat.two_pow_pos (stepOf scaled den))
  have hproduct (k : Nat) :
      k * 2 ^ stepOf scaled den * den = k * (den * 2 ^ stepOf scaled den) := by ring
  have hrounded : units (rounded scaled hden).magnitude * den =
      roundEven scaled (den * 2 ^ stepOf scaled den) * (den * 2 ^ stepOf scaled den) := by
    rw [Scaled.units_magnitude]
    exact hproduct _
  have hclosest := roundEven_closest scaled hstep
  rw [hrounded]
  rcases units_onStep m (stepOf scaled den) with ⟨k, hk⟩ | ⟨hpos, hlow⟩
  · rw [hk, hproduct]
    refine ⟨hclosest k, fun htie hne => ?_⟩
    have hcount : k ≠ roundEven scaled (den * 2 ^ stepOf scaled den) := by
      rintro rfl
      refine hne (units_strictMono.injective ?_)
      rw [hk, Scaled.units_magnitude]
      rfl
    have heven := roundEven_even_of_tie hstep hcount htie
    have hbit : exponentBit % 2 = 0 := by decide
    change (stepOf scaled den * exponentBit + roundEven scaled (den * 2 ^ stepOf scaled den)) % 2 = 0
    rw [Nat.add_mod, Nat.mul_mod, hbit, heven, Nat.mul_zero]
  · -- A number on a lower step is below the least one of this step, and the fraction is not.
    have hleast := (onStep_stepOf scaled hden).2 hpos
    have hbelow : units m * den < exponentBit * (den * 2 ^ stepOf scaled den) := by
      rw [← hproduct]
      exact Nat.mul_lt_mul_of_pos_right hlow hden
    have hge := hclosest exponentBit
    omega

end Calculator.Binary64
