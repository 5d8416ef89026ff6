import Calculator.Proofs.Binary64.Nearest

/-!
# Doubles and their patterns

Core keeps a double as its 64 bits, and defines everything else on the sign, the number and the
exponent that they stand for.  This module goes from there to the sign and the magnitude that
the library works with.

* `pattern` puts a sign and a magnitude together, and `toBitVec_toBits` says that the bits of every
  double are such a pattern.
* `unpack_packComponents` and `pack_unpack_packComponents`: what the parts of a pattern stand for,
  and that a pattern is got back from it unless it is no number.
* `magnitude_ofMagnitude`, `isNegative_ofMagnitude` and `ofMagnitude_magnitude`: sign and
  magnitude determine a double that is a number, and it has them.
* `neg_eq_ofMagnitude` and `isFinite_iff` say what negation and being finite are for sign and
  magnitude, and `unpack_pattern` what core reads off them.
-/

namespace Calculator.Binary64

open Float.Model (UnpackedFloat)
open Float.Model.Format (binary64)
open Float.Model.UnpackedFloat

/-! ## The parts of a pattern -/

theorem toNat_packComponents (s : Sign) (e : BitVec 11) (m : BitVec 52) :
    (packComponents binary64 s e m).toNat =
      s.toBitVec.toNat * 2 ^ 63 + e.toNat * 2 ^ 52 + m.toNat := by
  unfold packComponents
  rw [BitVec.toNat_append, BitVec.toNat_append, ← Nat.shiftLeft_add_eq_or_of_lt e.isLt,
    ← Nat.shiftLeft_add_eq_or_of_lt m.isLt]
  simp only [Nat.shiftLeft_eq]
  ring

theorem toNat_unpackSign (b : BitVec 64) :
    (@unpackSign binary64 b).toNat = b.toNat / 2 ^ 63 := by
  have hlt := b.isLt
  have hbits : @unpackSign binary64 b = (b.extractLsb 63 63).cast rfl := rfl
  rw [hbits, BitVec.toNat_cast, BitVec.extractLsb_toNat, Nat.shiftRight_eq_div_pow]
  omega

@[simp] theorem ofBitVec_toBitVec (s : Sign) : Sign.ofBitVec s.toBitVec = s := by
  cases s <;> rfl

@[simp] theorem unpackSign_packComponents (s : Sign) (e : BitVec 11) (m : BitVec 52) :
    unpackSign (packComponents binary64 s e m) = s.toBitVec := by
  have he := e.isLt
  have hm := m.isLt
  apply BitVec.eq_of_toNat_eq
  rw [toNat_unpackSign, toNat_packComponents]
  omega

/-- The leading place that a normal number does not show. -/
theorem toNat_one_append (m : BitVec 52) : (1#1 ++ m).toNat = 2 ^ 52 + m.toNat := by
  rw [BitVec.toNat_append, ← Nat.shiftLeft_add_eq_or_of_lt m.isLt]
  rfl

/-- Numbers are the same with the same sign, count and exponent. -/
theorem finite_congr {s : Sign} {m m' : Nat} {e e' : Int} (hm : m = m') (he : e = e')
    {hpos : 0 < m} {hpos' : 0 < m'} :
    UnpackedFloat.finite s m e hpos = UnpackedFloat.finite s m' e' hpos' := by
  subst hm he
  rfl

/-- What the parts of a pattern stand for. -/
def unpackParts (s : Sign) (e : BitVec 11) (m : BitVec 52) : UnpackedFloat :=
  if e = -1#11 then
    if m = 0#52 then .infinity s else .notANumber
  else if e = 0#11 then
    if h : m = 0#52 then .zero s
    else .finite s m.toNat (-1074) (by simpa [BitVec.toNat_pos, BitVec.pos_iff_ne_zero])
  else .finite s (2 ^ 52 + m.toNat) (e.toNat - 1075) (by omega)

theorem unpackParts_infinite (s : Sign) (m : BitVec 52) :
    unpackParts s (-1#11) m = if m = 0#52 then .infinity s else .notANumber := rfl

theorem unpackParts_subnormal (s : Sign) {m : BitVec 52} (hm : m ≠ 0#52) :
    unpackParts s 0#11 m =
      .finite s m.toNat (-1074) (by simpa [BitVec.toNat_pos, BitVec.pos_iff_ne_zero]) := by
  rw [unpackParts, if_neg (by decide), if_pos rfl, dif_neg hm]

theorem unpackParts_normal (s : Sign) {e : BitVec 11} (m : BitVec 52) (hfinite : e ≠ -1#11)
    (hzero : e ≠ 0#11) :
    unpackParts s e m = .finite s (2 ^ 52 + m.toNat) (e.toNat - 1075) (by omega) := by
  rw [unpackParts, if_neg hfinite, if_neg hzero]

theorem unpack_eq_unpackParts (b : BitVec 64) :
    UnpackedFloat.unpack binary64 b =
      unpackParts (Sign.ofBitVec (@unpackSign binary64 b)) (@unpackExponent binary64 b)
        (@unpackMantissa binary64 b) := by
  unfold UnpackedFloat.unpack unpackParts
  dsimp only
  by_cases hinfinite : @unpackExponent binary64 b = -1#11
  · rw [if_pos hinfinite, if_pos hinfinite]
  · rw [if_neg hinfinite, if_neg hinfinite]
    by_cases hzero : @unpackExponent binary64 b = 0#11
    · rw [if_pos hzero, if_pos hzero]
      by_cases hm : @unpackMantissa binary64 b = 0#52
      · rw [dif_pos hm, dif_pos hm]
      · rw [dif_neg hm, dif_neg hm]
        exact finite_congr rfl (by rw [hzero]; rfl)
    · rw [if_neg hzero, if_neg hzero]
      exact finite_congr (toNat_one_append _) rfl

theorem unpack_packComponents (s : Sign) (e : BitVec 11) (m : BitVec 52) :
    UnpackedFloat.unpack binary64 (packComponents binary64 s e m) = unpackParts s e m := by
  rw [unpack_eq_unpackParts, unpackMantissa_packComponents, unpackExponent_packComponents,
    unpackSign_packComponents, ofBitVec_toBitVec]

theorem pack_subnormal (s : Sign) {m : BitVec 52} (hpos : 0 < m.toNat) :
    UnpackedFloat.pack binary64 (.finite s m.toNat (-1074) hpos) =
      packComponents binary64 s 0#11 m := by
  have hlog : m.toNat.log2 + 1 ≠ binary64.mantissaBits := by
    have hlt := (Nat.log2_lt (Nat.ne_of_gt hpos)).mpr m.isLt
    change m.toNat.log2 + 1 ≠ 53
    omega
  unfold UnpackedFloat.pack
  dsimp only
  rw [if_neg (by decide), if_neg hlog, BitVec.ofNat_toNat, BitVec.setWidth_eq]

theorem pack_normal (s : Sign) {e : BitVec 11} (m : BitVec 52) (hpos : 0 < 2 ^ 52 + m.toNat)
    (hzero : e ≠ 0#11) (hfinite : e ≠ -1#11) :
    UnpackedFloat.pack binary64 (.finite s (2 ^ 52 + m.toNat) (e.toNat - 1075) hpos) =
      packComponents binary64 s e m := by
  have hm := m.isLt
  have he := e.isLt
  have hlow : e.toNat ≠ 0 := fun h => hzero (BitVec.eq_of_toNat_eq h)
  have hhigh : e.toNat ≠ 2047 := fun h => hfinite (BitVec.eq_of_toNat_eq h)
  have hlog : (2 ^ 52 + m.toNat).log2 + 1 = binary64.mantissaBits := by
    have hge := (Nat.le_log2 (Nat.ne_of_gt hpos)).mpr (Nat.le_add_right (2 ^ 52) m.toNat)
    have hlt := (Nat.log2_lt (k := 53) (Nat.ne_of_gt hpos)).mpr (by omega)
    change (2 ^ 52 + m.toNat).log2 + 1 = 53
    omega
  have hexponent : ((e.toNat : Int) - 1075 + binary64.exponentBias +
      binary64.mantissaBitsWithoutImplicit).toNat = e.toNat := by
    change ((e.toNat : Int) - 1075 + 1023 + 52).toNat = e.toNat
    omega
  have hfraction : BitVec.ofNat 52 (2 ^ 52 + m.toNat) = m := by
    apply BitVec.eq_of_toNat_eq
    rw [BitVec.toNat_ofNat]
    omega
  unfold UnpackedFloat.pack
  dsimp only
  rw [hexponent, if_neg, if_pos hlog, BitVec.ofNat_toNat, BitVec.setWidth_eq, hfraction]
  change ¬ 2048 ≤ e.toNat + 1
  omega

/-- Unless it is no number, a pattern is got back from what it stands for. -/
theorem pack_unpack_packComponents (s : Sign) {e : BitVec 11} {m : BitVec 52}
    (h : e = -1#11 → m = 0#52) :
    UnpackedFloat.pack binary64 (UnpackedFloat.unpack binary64 (packComponents binary64 s e m)) =
      packComponents binary64 s e m := by
  rw [unpack_packComponents]
  by_cases hinfinite : e = -1#11
  · rw [h hinfinite, hinfinite]
    rfl
  · by_cases hzero : e = 0#11
    · subst hzero
      by_cases hm : m = 0#52
      · subst hm
        rfl
      · rw [unpackParts_subnormal s hm]
        exact pack_subnormal s _
    · rw [unpackParts_normal s m hinfinite hzero]
      exact pack_normal s m _ hzero hinfinite

/-- Negation changes the sign of a pattern, and nothing else. -/
theorem neg_unpack_packComponents (s : Sign) (e : BitVec 11) (m : BitVec 52) :
    (UnpackedFloat.unpack binary64 (packComponents binary64 s e m)).neg =
      UnpackedFloat.unpack binary64 (packComponents binary64 (-s) e m) := by
  rw [unpack_packComponents, unpack_packComponents]
  by_cases hinfinite : e = -1#11
  · subst hinfinite
    rw [unpackParts_infinite, unpackParts_infinite]
    split <;> rfl
  · by_cases hzero : e = 0#11
    · subst hzero
      by_cases hm : m = 0#52
      · subst hm
        rfl
      · rw [unpackParts_subnormal s hm, unpackParts_subnormal (-s) hm]
        rfl
    · rw [unpackParts_normal s m hinfinite hzero, unpackParts_normal (-s) m hinfinite hzero]
      rfl

/-! ## Patterns with a sign and a magnitude -/

theorem signBit_eq : signBit = 2 ^ 63 := by decide

theorem exponentBit_eq : exponentBit = 2 ^ 52 := by decide

theorem infinite_eq : infinite = 2047 * 2 ^ 52 := by decide

theorem infinite_lt_signBit : infinite < signBit := by decide

def signOf (negative : Bool) : Sign := if negative then .negative else .positive

/-- The pattern with a sign and a magnitude. -/
def pattern (negative : Bool) (m : Nat) : BitVec 64 :=
  packComponents binary64 (signOf negative) (BitVec.ofNat 11 (m / exponentBit))
    (BitVec.ofNat 52 (m % exponentBit))

theorem toNat_pattern (negative : Bool) {m : Nat} (h : m < signBit) :
    (pattern negative m).toNat = if negative then signBit + m else m := by
  rw [signBit_eq] at h ⊢
  have hexponent : m / 2 ^ 52 < 2 ^ 11 := by omega
  have hfraction : m % 2 ^ 52 < 2 ^ 52 := Nat.mod_lt _ (by decide)
  rw [pattern, toNat_packComponents, BitVec.toNat_ofNat, BitVec.toNat_ofNat, exponentBit_eq,
    Nat.mod_eq_of_lt hexponent, Nat.mod_eq_of_lt hfraction]
  cases negative with
  | false =>
    change 0 * 2 ^ 63 + m / 2 ^ 52 * 2 ^ 52 + m % 2 ^ 52 = m
    omega
  | true =>
    change 1 * 2 ^ 63 + m / 2 ^ 52 * 2 ^ 52 + m % 2 ^ 52 = 2 ^ 63 + m
    omega

theorem magnitude_lt_signBit (x : Float) : magnitude x < signBit := Nat.mod_lt _ (by decide)

/-- The bits of a double are its sign and its magnitude. -/
theorem toBitVec_toBits (x : Float) :
    x.toBits.toBitVec = pattern (isNegative x) (magnitude x) := by
  have hlt := x.toBits.toNat_lt
  apply BitVec.eq_of_toNat_eq
  rw [toNat_pattern _ (magnitude_lt_signBit x)]
  unfold isNegative magnitude
  rw [signBit_eq, UInt64.toNat_toBitVec]
  simp only [decide_eq_true_eq]
  split <;> omega

/-- A double is known by its bits. -/
theorem eq_of_toBits {x y : Float} (h : x.toBits.toBitVec = y.toBits.toBitVec) : x = y := by
  obtain ⟨bits, hbits⟩ := x
  obtain ⟨bits', hbits'⟩ := y
  obtain rfl : bits = bits' := UInt64.toBitVec_inj.mp h
  rfl

/-- Up to infinity, a pattern is that of a number. -/
theorem pack_unpack_pattern (negative : Bool) {m : Nat} (h : m ≤ infinite) :
    UnpackedFloat.pack binary64 (UnpackedFloat.unpack binary64 (pattern negative m)) =
      pattern negative m := by
  apply pack_unpack_packComponents
  rw [infinite_eq] at h
  rw [exponentBit_eq, ← BitVec.toNat_inj, ← BitVec.toNat_inj, BitVec.toNat_ofNat,
    BitVec.toNat_ofNat]
  intro hexponent
  change m / 2 ^ 52 % 2 ^ 11 = 2047 at hexponent
  change m % 2 ^ 52 % 2 ^ 52 = 0
  omega

theorem toBitVec_ofMagnitude (negative : Bool) {m : Nat} (h : m ≤ infinite) :
    (ofMagnitude negative m).toBits.toBitVec = pattern negative m := by
  have hlt := Nat.lt_of_le_of_lt h infinite_lt_signBit
  have hpattern : (UInt64.ofNat (if negative then signBit + m else m)).toBitVec =
      pattern negative m := by
    apply BitVec.eq_of_toNat_eq
    rw [toNat_pattern negative hlt, UInt64.toNat_toBitVec, UInt64.toNat_ofNat']
    apply Nat.mod_eq_of_lt
    rw [signBit_eq] at hlt ⊢
    split <;> omega
  rw [← pack_unpack_pattern negative h, ← hpattern]
  rfl

theorem magnitude_ofMagnitude (negative : Bool) {m : Nat} (h : m ≤ infinite) :
    magnitude (ofMagnitude negative m) = m := by
  have hlt := Nat.lt_of_le_of_lt h infinite_lt_signBit
  rw [magnitude, ← UInt64.toNat_toBitVec, toBitVec_ofMagnitude negative h,
    toNat_pattern negative hlt]
  split
  · rw [Nat.add_mod_left, Nat.mod_eq_of_lt hlt]
  · rw [Nat.mod_eq_of_lt hlt]

theorem isNegative_ofMagnitude (negative : Bool) {m : Nat} (h : m ≤ infinite) :
    isNegative (ofMagnitude negative m) = negative := by
  have hlt := Nat.lt_of_le_of_lt h infinite_lt_signBit
  rw [isNegative, ← UInt64.toNat_toBitVec, toBitVec_ofMagnitude negative h,
    toNat_pattern negative hlt]
  cases negative with
  | false => simpa using hlt
  | true => simp

theorem ofMagnitude_magnitude {x : Float} (h : magnitude x ≤ infinite) :
    ofMagnitude (isNegative x) (magnitude x) = x := by
  apply eq_of_toBits
  rw [toBitVec_ofMagnitude _ h, toBitVec_toBits]

/-! ## What core says of doubles -/

/-- What a double stands for. -/
theorem unpack_toModel (x : Float) :
    x.toModel.unpack = UnpackedFloat.unpack binary64 (pattern (isNegative x) (magnitude x)) := by
  rw [← toBitVec_toBits]
  rfl

theorem neg_eq_ofMagnitude {x : Float} (h : magnitude x ≤ infinite) :
    -x = ofMagnitude (!isNegative x) (magnitude x) := by
  have hneg : (UnpackedFloat.unpack binary64 (pattern (isNegative x) (magnitude x))).neg =
      UnpackedFloat.unpack binary64 (pattern (!isNegative x) (magnitude x)) := by
    rw [pattern, neg_unpack_packComponents]
    cases isNegative x <;> rfl
  apply eq_of_toBits
  rw [toBitVec_ofMagnitude _ h, ← pack_unpack_pattern _ h, ← hneg, ← unpack_toModel]
  rfl

theorem magnitude_neg {x : Float} (h : magnitude x ≤ infinite) : magnitude (-x) = magnitude x := by
  rw [neg_eq_ofMagnitude h, magnitude_ofMagnitude _ h]

theorem isNegative_neg {x : Float} (h : magnitude x ≤ infinite) :
    isNegative (-x) = !isNegative x := by
  rw [neg_eq_ofMagnitude h, isNegative_ofMagnitude _ h]

theorem unpack_pattern_zero (negative : Bool) :
    UnpackedFloat.unpack binary64 (pattern negative 0) = .zero (signOf negative) := by
  rw [pattern, unpack_packComponents]
  rfl

/-- A pattern of a finite number, with its number of units and their exponent. -/
theorem unpack_pattern (negative : Bool) {m : Nat} (hpos : m ≠ 0) (h : m < infinite) :
    ∃ hcount, UnpackedFloat.unpack binary64 (pattern negative m) =
      .finite (signOf negative) (Scaled.ofMagnitude m).count
        ((Scaled.ofMagnitude m).step - 1074) hcount := by
  rw [infinite_eq] at h
  have hexponent : (BitVec.ofNat 11 (m / exponentBit)).toNat = m / exponentBit := by
    rw [BitVec.toNat_ofNat, exponentBit_eq]
    exact Nat.mod_eq_of_lt (by omega)
  have hfraction : (BitVec.ofNat 52 (m % exponentBit)).toNat = m % exponentBit := by
    rw [BitVec.toNat_ofNat, exponentBit_eq]
    exact Nat.mod_eq_of_lt (Nat.mod_lt _ (by decide))
  have hfinite : BitVec.ofNat 11 (m / exponentBit) ≠ -1#11 := by
    rw [Ne, ← BitVec.toNat_inj, hexponent, exponentBit_eq]
    change m / 2 ^ 52 ≠ 2047
    omega
  rw [pattern, unpack_packComponents]
  by_cases hlow : m / exponentBit = 0
  · have hdiv := Nat.div_add_mod m exponentBit
    rw [hlow, Nat.mul_zero, Nat.zero_add] at hdiv
    have hne : BitVec.ofNat 52 (m % exponentBit) ≠ 0#52 := by
      rw [Ne, ← BitVec.toNat_inj, hfraction, hdiv]
      exact hpos
    rw [hlow, unpackParts_subnormal _ hne]
    refine ⟨?_, finite_congr ?_ ?_⟩
    · rw [Scaled.count_ofMagnitude, if_pos hlow, hdiv]
      omega
    · rw [hfraction, Scaled.count_ofMagnitude, if_pos hlow]
    · rw [Scaled.step_ofMagnitude, hlow]
      rfl
  · have hne : BitVec.ofNat 11 (m / exponentBit) ≠ 0#11 := by
      rw [Ne, ← BitVec.toNat_inj, hexponent]
      exact hlow
    rw [unpackParts_normal _ _ hfinite hne]
    refine ⟨?_, finite_congr ?_ ?_⟩
    · rw [Scaled.count_ofMagnitude, if_neg hlow, exponentBit_eq]
      omega
    · rw [hfraction, Scaled.count_ofMagnitude, if_neg hlow, exponentBit_eq]
    · rw [hexponent, Scaled.step_ofMagnitude]
      omega

theorem isFinite_iff {x : Float} : x.isFinite ↔ magnitude x < infinite := by
  have hlt := magnitude_lt_signBit x
  change x.toModel.unpack.isFinite ↔ _
  rw [unpack_toModel]
  by_cases h : magnitude x < infinite
  · refine iff_of_true ?_ h
    by_cases hzero : magnitude x = 0
    · rw [hzero, unpack_pattern_zero]
      rfl
    · obtain ⟨hcount, hunpack⟩ := unpack_pattern (isNegative x) hzero h
      rw [hunpack]
      rfl
  · refine iff_of_false ?_ h
    rw [signBit_eq] at hlt
    rw [infinite_eq] at h
    have hexponent : BitVec.ofNat 11 (magnitude x / exponentBit) = -1#11 := by
      rw [← BitVec.toNat_inj, BitVec.toNat_ofNat, exponentBit_eq]
      change magnitude x / 2 ^ 52 % 2 ^ 11 = 2047
      omega
    rw [pattern, unpack_packComponents, hexponent, unpackParts_infinite]
    split <;> exact Bool.false_ne_true

theorem isFinite_neg {x : Float} (h : x.isFinite) : (-x).isFinite := by
  have hlt := isFinite_iff.mp h
  rw [isFinite_iff, magnitude_neg (Nat.le_of_lt hlt)]
  exact hlt

end Calculator.Binary64
