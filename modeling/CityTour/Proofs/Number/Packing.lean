import Mathlib
import CityTour.Proofs.Number.Order

/-! Numbers on their way into doubles.  A number in the making has a mantissa, one bit more and a
bit for the rest; `Represents` says which numbers these stand for, and shifting keeps it.  So
rounding and packing give the double nearest to the exact number (`ofModel_roundWithAccuracy`). -/

namespace CityTour.Double

open Float.Model Float.Model.UnpackedFloat

/-- The numbers that a mantissa with its two bits of rest stands for. -/
def Represents (em : ExtendedMantissa) (r : ℚ) : Prop :=
  match em.roundBit, em.stickyBit with
  | false, false => r = em.mantissa
  | false, true => em.mantissa < r ∧ r < em.mantissa + 1 / 2
  | true, false => r = em.mantissa + 1 / 2
  | true, true => em.mantissa + 1 / 2 < r ∧ r < em.mantissa + 1

variable {em : ExtendedMantissa} {r q : ℚ}

theorem Represents.bounds (h : Represents em r) : em.mantissa ≤ r ∧ r < em.mantissa + 1 := by
  obtain ⟨m, roundBit, stickyBit⟩ := em
  cases roundBit with
  | false =>
    cases stickyBit with
    | false => obtain rfl : r = m := h; constructor <;> linarith
    | true => obtain ⟨hlo, hhi⟩ := h; constructor <;> linarith
  | true =>
    cases stickyBit with
    | false => obtain rfl : r = m + 1 / 2 := h; constructor <;> linarith
    | true => obtain ⟨hlo, hhi⟩ := h; constructor <;> linarith

theorem Represents.floor_eq (h : Represents em r) : ⌊r⌋₊ = em.mantissa := by
  obtain ⟨hlo, hhi⟩ := h.bounds
  rw [Nat.floor_eq_iff ((Nat.cast_nonneg _).trans hlo)]
  exact ⟨hlo, hhi⟩

/-- Rounding the mantissa by its rest is rounding the number. -/
theorem Represents.roundedMantissa_eq (h : Represents em r) :
    em.roundedMantissa = roundEven r := by
  have hfloor := h.floor_eq
  obtain ⟨m, roundBit, stickyBit⟩ := em
  replace hfloor : ⌊r⌋₊ = m := hfloor
  rw [roundEven, hfloor]
  cases roundBit with
  | false =>
    cases stickyBit with
    | false =>
      obtain rfl : r = m := h
      exact (if_pos (.inl (by norm_num))).symm
    | true =>
      obtain ⟨hlo, hhi⟩ := h
      exact (if_pos (.inl (by linarith))).symm
  | true =>
    cases stickyBit with
    | false =>
      obtain rfl : r = m + 1 / 2 := h
      show m + m % 2 = _
      rcases Nat.mod_two_eq_zero_or_one m with heven | hodd
      · rw [if_pos (.inr ⟨by ring, heven⟩), heven, Nat.add_zero]
      · rw [if_neg (by rintro (hlt | ⟨-, heven⟩) <;> [linarith; omega]), hodd]
    | true =>
      obtain ⟨hlo, hhi⟩ := h
      rw [if_neg (by rintro (hlt | ⟨htie, -⟩) <;> linarith)]
      rfl

theorem Represents.shiftRightOne (h : Represents em r) : Represents em.shiftRightOne (r / 2) := by
  obtain ⟨m, roundBit, stickyBit⟩ := em
  have hsplit : (m : ℚ) = 2 * (m / 2 : ℕ) + (m % 2 : ℕ) := by
    exact_mod_cast (Nat.div_add_mod m 2).symm
  -- The bit that is shifted out becomes the round bit, and the old one goes to the sticky bit.
  rcases Nat.mod_two_eq_zero_or_one m with hm | hm
  all_goals
    rw [hm] at hsplit
    push_cast at hsplit
    cases roundBit <;> cases stickyBit
    all_goals
      simp [Represents, ExtendedMantissa.shiftRightOne, hm] at h ⊢
      first
        | linarith
        | exact ⟨by linarith, by linarith⟩

theorem Represents.shiftRight (h : Represents em r) (n : ℕ) :
    Represents (em >>> n) (r / 2 ^ n) := by
  show Represents (n.repeat ExtendedMantissa.shiftRightOne em) (r / 2 ^ n)
  induction n with
  | zero => simpa [Nat.repeat] using h
  | succ n ih =>
    rw [Nat.repeat, pow_succ, ← div_div]
    exact ih.shiftRightOne

theorem mantissa_ofMantissaAndAccuracy (m : ℕ) (accuracy : Accuracy) :
    (ExtendedMantissa.ofMantissaAndAccuracy m accuracy).mantissa = m := by
  cases accuracy with
  | exact => rfl
  | inexact half => cases half <;> rfl

theorem represents_exact (m : ℕ) :
    Represents (ExtendedMantissa.ofMantissaAndAccuracy m .exact) m := rfl

theorem represents_fraction (m : ℕ) {num den : ℕ} (hlt : num < den) :
    Represents (ExtendedMantissa.ofMantissaAndAccuracy m (accuracyOfFraction num den))
      (m + num / den) := by
  have hpos : (0 : ℚ) < den := Nat.cast_pos.mpr (Nat.zero_lt_of_lt hlt)
  unfold accuracyOfFraction
  rcases Nat.eq_zero_or_pos num with rfl | hnum
  · rw [if_pos rfl]
    show (m + (0 : ℕ) / den : ℚ) = m
    simp
  rw [if_neg hnum.ne']
  have hfraction : (0 : ℚ) < num / den := div_pos (Nat.cast_pos.mpr hnum) hpos
  have hone : (num / den : ℚ) < 1 := (div_lt_one hpos).mpr (Nat.cast_lt.mpr hlt)
  rcases lt_trichotomy (2 * num) den with h | h | h
  · have hhalf : (num / den : ℚ) < 1 / 2 := by
      rw [div_lt_div_iff₀ hpos two_pos, one_mul, mul_comm]
      exact_mod_cast h
    rw [compare_lt_iff_lt.mpr h]
    show (m : ℚ) < m + num / den ∧ (m + num / den : ℚ) < m + 1 / 2
    constructor <;> linarith
  · have hhalf : (num / den : ℚ) = 1 / 2 := by
      rw [div_eq_div_iff hpos.ne' two_ne_zero, one_mul, mul_comm]
      exact_mod_cast h
    rw [compare_eq_iff_eq.mpr h]
    show (m + num / den : ℚ) = m + 1 / 2
    rw [hhalf]
  · have hhalf : (1 / 2 : ℚ) < num / den := by
      rw [div_lt_div_iff₀ two_pos hpos, one_mul, mul_comm (num : ℚ)]
      exact_mod_cast h
    rw [compare_gt_iff_gt.mpr h]
    show (m + 1 / 2 : ℚ) < m + num / den ∧ (m + num / den : ℚ) < m + 1
    constructor <;> linarith

/-! ### Rounding and packing -/

theorem targetExponent_eq (m : ℕ) (e : ℤ) :
    Format.binary64.targetExponent (totalExponent m e) = max (m.log2 + e - 52) (-1074) := by
  have hbits : Format.binary64.mantissaBits = 53 := rfl
  have hmin : Format.binary64.minExponent = -1074 := by decide
  rw [Format.targetExponent, totalExponent, hbits, hmin]
  congr 1
  push_cast
  ring

theorem targetExponent_eq_unitOf {m : ℕ} {e : ℤ} (hm : 0 < m) (hlo : (m : ℚ) ≤ q / 2 ^ e)
    (hhi : q / 2 ^ e < m + 1) :
    Format.binary64.targetExponent (totalExponent m e) = unitOf q := by
  have hpow : (0 : ℚ) < 2 ^ e := zpow_pos two_pos e
  rw [le_div_iff₀ hpow] at hlo
  rw [div_lt_iff₀ hpow] at hhi
  have hlog : Int.log 2 q = m.log2 + e := by
    apply log_eq_of_bounds
    · rw [zpow_add₀ two_ne_zero]
      exact (mul_le_mul_of_nonneg_right (log2_bounds hm).1 hpow.le).trans hlo
    · have hsucc : (m + 1 : ℚ) ≤ 2 ^ (m.log2 + 1 : ℤ) := by
        exact_mod_cast Nat.succ_le_of_lt (Nat.lt_log2_self (n := m))
      rw [show (m.log2 + e + 1 : ℤ) = m.log2 + 1 + e by ring, zpow_add₀ two_ne_zero]
      exact hhi.trans_le (mul_le_mul_of_nonneg_right hsucc hpow.le)
  rw [targetExponent_eq, unitOf, hlog, max_comm]

theorem toNat_packComponents (s : Sign) (e : BitVec 11) (m : BitVec 52) :
    (packComponents Format.binary64 s e m).toNat =
      signBit (isNegative s) + (e.toNat * 2 ^ 52 + m.toNat) := by
  have hsign : s.toBitVec.toNat * 2 ^ 63 = signBit (isNegative s) := by
    cases s <;> rfl
  have happend : (packComponents Format.binary64 s e m).toNat =
      (s.toBitVec.toNat * 2 ^ 11 + e.toNat) * 2 ^ 52 + m.toNat := by
    rw [packComponents, BitVec.toNat_append, BitVec.toNat_append,
      ← Nat.shiftLeft_add_eq_or_of_lt m.isLt, ← Nat.shiftLeft_add_eq_or_of_lt e.isLt,
      Nat.shiftLeft_eq, Nat.shiftLeft_eq]
  rw [happend, ← hsign]
  ring

theorem toNat_pack_zero (s : Sign) :
    (UnpackedFloat.pack Format.binary64 (.zero s)).toNat = signBit (isNegative s) := by
  show (packComponents Format.binary64 s 0 0).toNat = _
  rw [toNat_packComponents]
  simp

/-- The bits of a canonical number, those of infinity if its exponent is too large. -/
theorem toNat_pack_finite (s : Sign) {m : ℕ} {e : ℤ} (h : Canonical m e) (hm : 0 < m) :
    (UnpackedFloat.pack Format.binary64 (.finite s m e hm)).toNat =
      signBit (isNegative s) + min (2047 * 2 ^ 52) (canonicalBits m e) := by
  obtain ⟨hlt, hmin, hnormal⟩ := h
  have hbiased : (e + Format.binary64.exponentBias +
      Format.binary64.mantissaBitsWithoutImplicit).toNat = (e + 1075).toNat := by
    have hbias : Format.binary64.exponentBias = 1023 := by decide
    have hwidth : Format.binary64.mantissaBitsWithoutImplicit = 52 := rfl
    rw [hbias, hwidth]
    congr 1
    push_cast
    ring
  have hlog : m.log2 + 1 = Format.binary64.mantissaBits ↔ 2 ^ 52 ≤ m := by
    have hbits : Format.binary64.mantissaBits = 53 := rfl
    have hle := Nat.le_log2 hm.ne' (k := 52)
    have hlt' := (Nat.log2_lt hm.ne' (k := 53)).mpr hlt
    rw [hbits]
    omega
  simp only [UnpackedFloat.pack, hbiased, hlog]
  by_cases hover : 2 ^ 11 ≤ (e + 1075).toNat + 1
  · rw [if_pos hover, packedInfinity, toNat_packComponents]
    unfold canonicalBits
    rw [min_eq_left (by omega)]
    rfl
  rw [if_neg hover]
  by_cases hfull : 2 ^ 52 ≤ m
  · rw [if_pos hfull, toNat_packComponents, BitVec.toNat_ofNat, BitVec.toNat_ofNat]
    unfold canonicalBits
    rw [min_eq_right (by omega)]
    omega
  · obtain rfl : e = -1074 := hnormal.resolve_right hfull
    rw [if_neg hfull, toNat_packComponents, BitVec.toNat_ofNat, BitVec.toNat_ofNat]
    unfold canonicalBits
    rw [min_eq_right (by omega)]
    omega

theorem ofModel_pack {u : UnpackedFloat} {s : Bool} {bits : ℕ}
    (h : (UnpackedFloat.pack Format.binary64 u).toNat = signBit s + bits) :
    Float.ofModel (Float.Model.pack u) = ofMagnitude s bits :=
  (ofMagnitude_toBits (x := Float.ofModel (Float.Model.pack u)) h).symm

theorem shiftToTargetExponent_of_canonical {m : ℕ} {e : ℤ} (h : Canonical m e) :
    shiftToTargetExponent Format.binary64 m e .exact = (⟨m, false, false⟩, e) := by
  obtain ⟨hlt, hmin, -⟩ := h
  have hlog : m.log2 < 53 := by
    rcases Nat.eq_zero_or_pos m with rfl | hm
    · decide
    · exact (Nat.log2_lt hm.ne').mpr hlt
  have hshift : (Format.binary64.targetExponent (totalExponent m e) - e).toNat = 0 := by
    rw [targetExponent_eq]
    omega
  rw [shiftToTargetExponent, shiftToExponent, hshift]
  simp only [Nat.cast_zero, add_zero]
  rfl

theorem shiftToTargetExponent_carry {e : ℤ} (he : -1074 ≤ e) :
    shiftToTargetExponent Format.binary64 (2 ^ 53) e .exact = (⟨2 ^ 52, false, false⟩, e + 1) := by
  have hshift : (Format.binary64.targetExponent (totalExponent (2 ^ 53) e) - e).toNat = 1 := by
    rw [targetExponent_eq, Nat.log2_two_pow]
    omega
  rw [shiftToTargetExponent, shiftToExponent, hshift]
  rfl

/-- A rounded mantissa is packed into the bits of its number; the one that has carried into a bit
more takes the next exponent. -/
theorem toNat_pack_rounded (s : Sign) {m : ℕ} {e : ℤ} (hm : m ≤ 2 ^ 53) (he : -1074 ≤ e)
    (hnormal : e = -1074 ∨ 2 ^ 52 ≤ m) :
    let final := shiftToTargetExponent Format.binary64 m e .exact
    (UnpackedFloat.pack Format.binary64 (if h : final.1.mantissa = 0 then .zero s
      else .finite s final.1.mantissa final.2 (Nat.pos_of_ne_zero h))).toNat =
        signBit (isNegative s) + min (2047 * 2 ^ 52) ((e + 1074).toNat * 2 ^ 52 + m) := by
  rcases hm.lt_or_eq with hlt | rfl
  · have hcanonical : Canonical m e := ⟨hlt, he, hnormal⟩
    simp only [shiftToTargetExponent_of_canonical hcanonical]
    rcases Nat.eq_zero_or_pos m with rfl | hpos
    · obtain rfl : e = -1074 := hnormal.resolve_right (by norm_num)
      rw [dif_pos rfl, toNat_pack_zero]
      simp
    · rw [dif_neg hpos.ne', toNat_pack_finite s hcanonical, canonicalBits]
  · have hcanonical : Canonical (2 ^ 52) (e + 1) := ⟨by norm_num, by omega, .inr le_rfl⟩
    simp only [shiftToTargetExponent_carry he]
    have hcarry : canonicalBits (2 ^ 52) (e + 1) = (e + 1074).toNat * 2 ^ 52 + 2 ^ 53 := by
      rw [canonicalBits]
      omega
    rw [dif_neg (by norm_num), toNat_pack_finite s hcanonical, hcarry]

/-- Rounding a mantissa with a rest gives the double nearest to the number. -/
theorem ofModel_roundWithAccuracy (s : Bool) {m : ℕ} {e : ℤ} {accuracy : Accuracy} (hq : 0 < q)
    (h : Represents (ExtendedMantissa.ofMantissaAndAccuracy m accuracy) (q / 2 ^ e))
    (he : e ≤ unitOf q)
    (htarget : Format.binary64.targetExponent (totalExponent m e) = unitOf q) :
    Float.ofModel (Float.Model.pack
      (roundWithAccuracy Format.binary64 (signOf s) m e accuracy)) = ofMagnitude s (bitsOf q) := by
  obtain ⟨k, hk⟩ : ∃ k : ℕ, unitOf q = e + k := ⟨(unitOf q - e).toNat, by omega⟩
  have hshift : (unitOf q - e).toNat = k := by omega
  have hunit : q / 2 ^ e / 2 ^ k = q / 2 ^ unitOf q := by
    rw [div_div, hk, zpow_add₀ two_ne_zero, zpow_natCast]
  have hround := (h.shiftRight k).roundedMantissa_eq
  rw [hunit] at hround
  have hfirst : shiftToTargetExponent Format.binary64 m e accuracy =
      (ExtendedMantissa.ofMantissaAndAccuracy m accuracy >>> k, unitOf q) := by
    rw [shiftToTargetExponent, htarget, shiftToExponent, hshift, hk]
  have hnegative : isNegative (signOf s) = s := by
    cases s <;> rfl
  apply ofModel_pack
  simp only [roundWithAccuracy, hfirst, hround]
  rw [bitsOf_of_pos hq]
  have hpack := toNat_pack_rounded (signOf s) (roundEven_unit_le q) (le_max_left (-1074) _)
    ((em (unitOf q = -1074)).imp_right (le_roundEven_unit hq))
  rw [hnegative] at hpack
  exact hpack

/-- Rounding an exact number gives the double nearest to it. -/
theorem ofModel_round (s : Bool) {m : ℕ} (hm : 0 < m) (e : ℤ) :
    Float.ofModel (Float.Model.pack (round Format.binary64 (signOf s) m e)) =
      ofMagnitude s (bitsOf (m * 2 ^ e)) := by
  have hpow : ∀ f : ℤ, (0 : ℚ) < 2 ^ f := fun f => zpow_pos two_pos f
  have hq : (0 : ℚ) < m * 2 ^ e := mul_pos (Nat.cast_pos.mpr hm) (hpow e)
  have hunit : Format.binary64.targetExponent (totalExponent m e) = unitOf (m * 2 ^ e) := by
    apply targetExponent_eq_unitOf hm
    · rw [mul_div_cancel_right₀ _ (hpow e).ne']
    · rw [mul_div_cancel_right₀ _ (hpow e).ne']
      exact lt_add_one _
  obtain ⟨k, hk⟩ : ∃ k : ℕ, (e - unitOf (m * 2 ^ e)).toNat = k := ⟨_, rfl⟩
  have hvalue : (m * 2 ^ e : ℚ) / 2 ^ (e - k) = (m <<< k : ℕ) := by
    rw [Nat.shiftLeft_eq, zpow_sub₀ two_ne_zero, zpow_natCast]
    push_cast
    rw [div_div_eq_mul_div, div_eq_iff (hpow e).ne']
    ring
  have hshifted : 0 < m <<< k := by
    rw [Nat.shiftLeft_eq]
    positivity
  rw [UnpackedFloat.round, hunit]
  simp only [decreaseExponent, hk]
  apply ofModel_roundWithAccuracy s hq
  · rw [hvalue]
    exact represents_exact _
  · omega
  · apply targetExponent_eq_unitOf hshifted
    · rw [hvalue]
    · rw [hvalue]
      exact lt_add_one _

end CityTour.Double
