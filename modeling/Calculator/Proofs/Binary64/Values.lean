import Calculator.Proofs.Binary64.Patterns
import Mathlib.Algebra.Order.Field.Basic
import Mathlib.Algebra.Order.Field.Rat

/-!
# The numbers that doubles stand for

* `rank` is the place of a finite double among all of them, and `le_iff_rank_le` says that doubles
  are compared by it.
* `value` is the number that a finite double stands for, as a fraction.  It is the one that core
  reads off the bits (`value_eq_of_unpack`), and doubles are compared by it too
  (`le_iff_value_le`).
-/

namespace Calculator.Binary64

open Float.Model (UnpackedFloat)
open Float.Model.Format (binary64)
open Float.Model.UnpackedFloat

/-! ## Signs -/

/-- A number with a sign. -/
def signed (negative : Bool) (n : Nat) : Int := if negative then -n else n

@[simp] theorem signed_false (n : Nat) : signed false n = n := rfl

@[simp] theorem signed_true (n : Nat) : signed true n = -n := rfl

theorem signed_zero (negative : Bool) : signed negative 0 = 0 := by cases negative <;> rfl

theorem signed_not (negative : Bool) (n : Nat) : signed (!negative) n = -signed negative n := by
  cases negative <;> simp

theorem signed_mul (negative : Bool) (n n' : Nat) :
    signed negative (n * n') = signed negative n * n' := by
  cases negative <;> simp

/-- What keeps the order of magnitudes keeps that of numbers with signs. -/
theorem signed_mono {f : Nat → Nat} (hf : Monotone f) (hzero : f 0 = 0) {negative negative' : Bool}
    {m m' : Nat} (h : signed negative m ≤ signed negative' m') :
    signed negative (f m) ≤ signed negative' (f m') := by
  cases negative <;> cases negative' <;> simp only [signed_false, signed_true] at h ⊢
  · have hle := hf (Int.ofNat_le.mp h)
    omega
  · obtain ⟨rfl, rfl⟩ : m = 0 ∧ m' = 0 := by omega
    omega
  · omega
  · have hle := hf (show m' ≤ m by omega)
    omega

theorem signed_le_signed_iff {f : Nat → Nat} (hf : StrictMono f) (hzero : f 0 = 0)
    {negative negative' : Bool} {m m' : Nat} :
    signed negative (f m) ≤ signed negative' (f m') ↔ signed negative m ≤ signed negative' m' := by
  refine ⟨fun h => ?_, signed_mono hf.monotone hzero⟩
  cases negative <;> cases negative' <;> simp only [signed_false, signed_true] at h ⊢
  · have hle := hf.le_iff_le.mp (Int.ofNat_le.mp h)
    omega
  · have hle := hf.le_iff_le.mp (show f m ≤ f 0 by omega)
    have hle' := hf.le_iff_le.mp (show f m' ≤ f 0 by omega)
    omega
  · omega
  · have hle := hf.le_iff_le.mp (show f m' ≤ f m by omega)
    omega

/-! ## Order -/

/-- A number on a step comes before another one if its step does, or its count on the same step. -/
theorem Scaled.isLE_compare {s s' : Scaled} (hcount : s.count < 2 * exponentBit)
    (hcount' : s'.count < 2 * exponentBit) :
    ((compare ((s.step : Int) - 1074) (s'.step - 1074)).then (compare s.count s'.count)).isLE ↔
      s.magnitude ≤ s'.magnitude := by
  have hge := s.exponentBit_le
  have hge' := s'.exponentBit_le
  have hbit : exponentBit = 4503599627370496 := rfl
  rw [hbit] at hcount hcount' hge hge'
  unfold Scaled.magnitude
  rw [hbit]
  rcases Nat.lt_trichotomy s.step s'.step with hlt | heq | hgt
  · have hc : compare ((s.step : Int) - 1074) (s'.step - 1074) = .lt := by
      rw [compare_lt_iff_lt]
      omega
    rw [hc]
    refine iff_of_true rfl ?_
    omega
  · have hc : compare ((s.step : Int) - 1074) (s'.step - 1074) = .eq := by
      rw [compare_eq_iff_eq]
      omega
    rw [hc, heq]
    simp [Nat.isLE_compare]
  · have hc : compare ((s.step : Int) - 1074) (s'.step - 1074) = .gt := by
      rw [compare_gt_iff_gt]
      omega
    rw [hc]
    refine iff_of_false (by simp) ?_
    omega

/-- The place of a finite double among all of them: its magnitude, with the sign. -/
def rank (x : Float) : Int := signed (isNegative x) (magnitude x)

/-- Patterns are compared as their magnitudes with the signs are. -/
theorem le_unpack_pattern {negative negative' : Bool} {m m' : Nat} (h : m < infinite)
    (h' : m' < infinite) :
    (UnpackedFloat.unpack binary64 (pattern negative m)).le
        (UnpackedFloat.unpack binary64 (pattern negative' m')) ↔
      signed negative m ≤ signed negative' m' := by
  unfold signed
  rcases Nat.eq_zero_or_pos m with rfl | hpos
  · rw [unpack_pattern_zero]
    rcases Nat.eq_zero_or_pos m' with rfl | hpos'
    · rw [unpack_pattern_zero]
      cases negative <;> cases negative' <;> exact iff_of_true rfl (by simp)
    · obtain ⟨_, hunpack⟩ := unpack_pattern negative' (Nat.ne_of_gt hpos') h'
      rw [hunpack]
      cases negative'
      · exact iff_of_true rfl (by simp)
      · exact iff_of_false Bool.false_ne_true (by simp; omega)
  · obtain ⟨_, hunpack⟩ := unpack_pattern negative (Nat.ne_of_gt hpos) h
    rw [hunpack]
    rcases Nat.eq_zero_or_pos m' with rfl | hpos'
    · rw [unpack_pattern_zero]
      cases negative
      · exact iff_of_false Bool.false_ne_true (by simp; omega)
      · exact iff_of_true rfl (by simp)
    · obtain ⟨_, hunpack'⟩ := unpack_pattern negative' (Nat.ne_of_gt hpos') h'
      rw [hunpack']
      have hcount := Scaled.count_ofMagnitude_lt m
      have hcount' := Scaled.count_ofMagnitude_lt m'
      cases negative <;> cases negative'
      · refine (Scaled.isLE_compare hcount hcount').trans ?_
        rw [Scaled.magnitude_ofMagnitude, Scaled.magnitude_ofMagnitude]
        simp
      · exact iff_of_false Bool.false_ne_true (by simp; omega)
      · exact iff_of_true rfl (by simp)
      · -- Of two negative numbers, the one with the greater magnitude is less.
        change (((compare _ _).then (compare _ _)).swap).isLE = true ↔ _
        rw [Ordering.swap_then, Int.compare_swap, Nat.compare_swap,
          Scaled.isLE_compare hcount' hcount, Scaled.magnitude_ofMagnitude,
          Scaled.magnitude_ofMagnitude]
        simp

/-- Finite doubles are in the order of their places. -/
theorem le_iff_rank_le {x y : Float} (hx : x.isFinite) (hy : y.isFinite) :
    x ≤ y ↔ rank x ≤ rank y := by
  change decide (x.toModel.unpack.le y.toModel.unpack) = true ↔ _
  rw [unpack_toModel, unpack_toModel, decide_eq_true_iff]
  exact le_unpack_pattern (isFinite_iff.mp hx) (isFinite_iff.mp hy)

/-! ## The numbers that doubles stand for -/

/-- The number that a finite double stands for. -/
def value (x : Float) : ℚ := signed (isNegative x) (units (magnitude x)) / unitsInOne

theorem signOf_injective : Function.Injective signOf := by
  intro negative negative' h
  cases negative <;> cases negative' <;> first | rfl | cases h

/-- The value is the one that core reads off the bits. -/
theorem value_eq_of_unpack {x : Float} {negative : Bool} {m : Nat} {e : Int} {hm : 0 < m}
    (h : x.toModel.unpack = .finite (signOf negative) m e hm) :
    value x = signed negative m * (2 : ℚ) ^ e := by
  have hfinite : x.isFinite := by
    change x.toModel.unpack.isFinite
    rw [h]
    rfl
  have hpos : magnitude x ≠ 0 := by
    intro hzero
    rw [unpack_toModel, hzero, unpack_pattern_zero] at h
    cases h
  obtain ⟨_, hunpack⟩ := unpack_pattern (isNegative x) hpos (isFinite_iff.mp hfinite)
  rw [unpack_toModel, hunpack] at h
  obtain ⟨hsign, rfl, rfl⟩ := UnpackedFloat.finite.inj h
  obtain rfl := signOf_injective hsign
  have hunits : units (magnitude x) =
      (Scaled.ofMagnitude (magnitude x)).count * 2 ^ (Scaled.ofMagnitude (magnitude x)).step := by
    rw [← Scaled.units_magnitude, Scaled.magnitude_ofMagnitude]
  have hone : (2 : ℚ) ^ (-1074 : Int) = 1 / unitsInOne := by
    rw [zpow_neg, one_div, unitsInOne_eq, Nat.cast_pow, Nat.cast_ofNat]
    rfl
  rw [value, hunits, signed_mul, sub_eq_add_neg, zpow_add₀ (by decide), hone]
  push_cast
  rw [zpow_natCast]
  ring

theorem value_le_value_iff {x y : Float} : value x ≤ value y ↔ rank x ≤ rank y := by
  have hpos : (0 : ℚ) < unitsInOne := Nat.cast_pos.mpr unitsInOne_pos
  unfold value rank
  rw [div_le_div_iff_of_pos_right hpos, Int.cast_le]
  exact signed_le_signed_iff units_strictMono rfl

/-- Finite doubles are compared as the numbers they stand for. -/
theorem le_iff_value_le {x y : Float} (hx : x.isFinite) (hy : y.isFinite) :
    x ≤ y ↔ value x ≤ value y := by
  rw [le_iff_rank_le hx hy, value_le_value_iff]

theorem abs_value (x : Float) : |value x| = units (magnitude x) / unitsInOne := by
  have habs : |(signed (isNegative x) (units (magnitude x)) : ℚ)| = units (magnitude x) := by
    cases isNegative x <;> simp
  rw [value, abs_div, habs, Nat.abs_cast]

end Calculator.Binary64
