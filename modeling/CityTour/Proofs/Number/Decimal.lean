import Mathlib
import CityTour.Number.Decimal
import CityTour.Proofs.Number.Bits

/-! Decimals and doubles.  `toDouble` rounds the value of a decimal correctly (`toDouble_eq`): what
it decides by the order alone, rounding would decide in the same way.  So the shortest digits of a
double, which were tried before they were taken, read back with either sign. -/

namespace CityTour

namespace Decimal

open Double

/-- The number that a decimal stands for. -/
def value (d : Decimal) : ℚ := d.digits * 10 ^ d.exponent

theorem value_nonneg (d : Decimal) : 0 ≤ d.value :=
  mul_nonneg (Nat.cast_nonneg _) (zpow_nonneg (by norm_num) _)

/-- The quotient times a power of ten. -/
theorem scale_eq (num : ℕ) {den : ℕ} (hden : 0 < den) (e : ℤ) : 0 < (scale num den e).2 ∧
    ((scale num den e).1 / (scale num den e).2 : ℚ) = num / den * 10 ^ e := by
  unfold scale
  by_cases he : e < 0
  · obtain ⟨k, rfl⟩ := Int.exists_eq_neg_ofNat he.le
    rw [if_pos he]
    simp [hden, zpow_neg, div_eq_mul_inv, mul_assoc, mul_comm]
  · obtain ⟨k, rfl⟩ := Int.eq_ofNat_of_zero_le (not_lt.mp he)
    rw [if_neg he]
    simp [hden, div_mul_eq_mul_div]

theorem magnitude_eq (m : ℕ) (e : ℤ) : 0 < (magnitude m e).2 ∧
    ((magnitude m e).1 / (magnitude m e).2 : ℚ) = m * 2 ^ e := by
  unfold magnitude
  by_cases he : e < 0
  · obtain ⟨k, rfl⟩ := Int.exists_eq_neg_ofNat he.le
    rw [if_pos he]
    simp [zpow_neg, div_eq_mul_inv]
  · obtain ⟨k, rfl⟩ := Int.eq_ofNat_of_zero_le (not_lt.mp he)
    rw [if_neg he]
    simp

/-! ### Reading -/

/-- A decimal is below the power of ten of its order, and at least the power before. -/
theorem order_bounds {d : Decimal} (h : 0 < d.digits) :
    (10 : ℚ) ^ (d.order - 1) ≤ d.value ∧ d.value < 10 ^ d.order := by
  have hpos : (0 : ℚ) < 10 ^ d.exponent := zpow_pos (by norm_num) _
  obtain ⟨k, hk⟩ : ∃ k, (Nat.toDigits 10 d.digits).length = k + 1 :=
    Nat.exists_eq_succ_of_ne_zero Nat.length_toDigits_pos.ne'
  have hlt : d.digits < 10 ^ (k + 1) :=
    (Nat.length_toDigits_le_iff (by norm_num) k.succ_pos).mp hk.le
  have hle : 10 ^ k ≤ d.digits := by
    rcases Nat.eq_zero_or_pos k with rfl | hpos
    · exact h
    · by_contra hnot
      have hlen := (Nat.length_toDigits_le_iff (by norm_num) hpos).mpr (not_le.mp hnot)
      omega
  have horder : d.order = (k + 1 : ℕ) + d.exponent := by rw [order, hk]
  constructor
  · calc (10 : ℚ) ^ (d.order - 1) = (10 ^ k : ℕ) * 10 ^ d.exponent := by
          rw [horder, show ((k + 1 : ℕ) : ℤ) + d.exponent - 1 = k + d.exponent by omega,
            zpow_add₀ (by norm_num), zpow_natCast, Nat.cast_pow, Nat.cast_ofNat]
      _ ≤ d.value := mul_le_mul_of_nonneg_right (Nat.cast_le.mpr hle) hpos.le
  · calc d.value < (10 ^ (k + 1) : ℕ) * 10 ^ d.exponent :=
          mul_lt_mul_of_pos_right (Nat.cast_lt.mpr hlt) hpos
      _ = 10 ^ d.order := by
          rw [horder, zpow_add₀ (by norm_num), zpow_natCast, Nat.cast_pow, Nat.cast_ofNat]

/-- Half the least double, and all that is less, is rounded to zero. -/
theorem bitsOf_tiny {q : ℚ} (hq : 0 ≤ q) (h : q ≤ 2 ^ (-1075 : ℤ)) : bitsOf q = 0 := by
  have hlog : Int.log 2 ((2 : ℚ) ^ (-1075 : ℤ)) = -1075 :=
    log_eq_of_bounds le_rfl (zpow_lt_zpow_right₀ one_lt_two (lt_add_one _))
  have hunit : unitOf (2 ^ (-1075 : ℤ)) = -1074 := by
    rw [unitOf, hlog]
    rfl
  have hhalf : (2 : ℚ) ^ (-1075 : ℤ) / 2 ^ (-1074 : ℤ) = 1 / 2 := by
    rw [← zpow_sub₀ two_ne_zero]
    norm_num
  have hround : roundEven (1 / 2) = 0 := by decide +kernel
  have hzero : bitsOf (2 ^ (-1075 : ℤ)) = 0 := by
    rw [bitsOf_of_pos (zpow_pos two_pos _), hunit, hhalf, hround]
    rfl
  have hle := bitsOf_mono hq h
  omega

/-- Whatever is past the doubles is rounded to infinity. -/
theorem bitsOf_huge {q : ℚ} (h : 2 ^ (1024 : ℤ) ≤ q) : bitsOf q = 2047 * 2 ^ 52 := by
  have hlog : Int.log 2 ((2 : ℚ) ^ (1024 : ℤ)) = 1024 :=
    log_eq_of_bounds le_rfl (zpow_lt_zpow_right₀ one_lt_two (lt_add_one _))
  have hunit : unitOf (2 ^ (1024 : ℤ)) = 972 := by
    rw [unitOf, hlog]
    rfl
  have hmantissa : (2 : ℚ) ^ (1024 : ℤ) / 2 ^ (972 : ℤ) = (2 ^ 52 : ℕ) := by
    rw [← zpow_sub₀ two_ne_zero]
    norm_num
  have htop : bitsOf (2 ^ (1024 : ℤ)) = 2047 * 2 ^ 52 := by
    rw [bitsOf_of_pos (zpow_pos two_pos _), hunit, hmantissa, roundEven_natCast]
    rfl
  exact le_antisymm (bitsOf_le q) (htop.ge.trans (bitsOf_mono (zpow_nonneg two_pos.le _) h))

theorem two_zpow_le_ten_zpow : (2 : ℚ) ^ (1075 : ℤ) ≤ 10 ^ (330 : ℤ) := by
  rw [zpow_ofNat, zpow_ofNat]
  calc (2 : ℚ) ^ 1075 ≤ 2 ^ (33 * 33) := pow_le_pow_right₀ one_le_two (by norm_num)
    _ = (2 ^ 33) ^ 33 := pow_mul 2 33 33
    _ ≤ (10 ^ 10) ^ 33 := pow_le_pow_left₀ (by norm_num) (by norm_num) 33
    _ = 10 ^ (10 * 33) := (pow_mul 10 10 33).symm
    _ = 10 ^ 330 := by norm_num only

/-- Reading a decimal gives the double nearest to it. -/
theorem toDouble_eq (s : Bool) (d : Decimal) : toDouble s d = ofMagnitude s (bitsOf d.value) := by
  have hten : (1 : ℚ) ≤ 10 := by norm_num
  have hzero : nearest s 0 1 = ofMagnitude s 0 := by
    rw [nearest_eq s 0 one_pos, Nat.cast_zero, zero_div, bitsOf_zero]
  unfold toDouble
  rcases Nat.eq_zero_or_pos d.digits with hd | hd
  · rw [if_pos (.inl hd), hzero, value, hd, Nat.cast_zero, zero_mul, bitsOf_zero]
  obtain ⟨hlo, hhi⟩ := order_bounds hd
  by_cases hlow : d.order < -330
  · have htiny : (10 : ℚ) ^ (-330 : ℤ) ≤ 2 ^ (-1075 : ℤ) := by
      rw [zpow_neg, zpow_neg]
      exact inv_anti₀ (zpow_pos two_pos _) two_zpow_le_ten_zpow
    have hle := (hhi.le.trans (zpow_le_zpow_right₀ hten hlow.le)).trans htiny
    rw [if_pos (.inr hlow), hzero, bitsOf_tiny d.value_nonneg hle]
  rw [if_neg (by omega)]
  by_cases hhigh : 330 < d.order
  · have hhuge : (2 : ℚ) ^ (1024 : ℤ) ≤ 10 ^ (330 : ℤ) :=
      (zpow_le_zpow_right₀ one_le_two (by omega)).trans two_zpow_le_ten_zpow
    have hge := hhuge.trans ((zpow_le_zpow_right₀ hten (by omega)).trans hlo)
    rw [if_pos hhigh, infinity_eq, bitsOf_huge hge]
  · obtain ⟨hscale, hvalue⟩ := scale_eq d.digits one_pos d.exponent
    rw [if_neg hhigh, nearest_eq s _ hscale, hvalue, Nat.cast_one, div_one]
    rfl

/-! ### The shortest digits -/

theorem ofCount?_reads {target : Float} {num den : ℕ} {p : ℤ} {count : ℕ} {d : Decimal}
    (h : ofCount? target num den p count = some d) : toDouble false d = target := by
  unfold ofCount? at h
  extract_lets e q low high nearer farther at h
  split_ifs at h with hnear hfar
  · rw [← Option.some.inj h]
    exact Float.toBits_inj.mp hnear
  · rw [← Option.some.inj h]
    exact Float.toBits_inj.mp hfar

theorem value_exact (m : ℕ) (e : ℤ) : (exact m e).value = m * 2 ^ e := by
  unfold exact
  by_cases he : e < 0
  · obtain ⟨k, rfl⟩ := Int.exists_eq_neg_ofNat he.le
    have hfive : (5 : ℚ) ^ k * (10 ^ k)⁻¹ = (2 ^ k)⁻¹ := by
      rw [show (10 : ℚ) = 5 * 2 by norm_num, mul_pow, mul_inv,
        mul_inv_cancel_left₀ (pow_ne_zero k (by norm_num))]
    rw [if_pos he, value]
    simp [zpow_neg, mul_assoc, hfive]
  · obtain ⟨k, rfl⟩ := Int.eq_ofNat_of_zero_le (not_lt.mp he)
    rw [if_neg he, value]
    simp

/-- The shortest digits of a magnitude are rounded as the magnitude is. -/
theorem bitsOf_shortest (m : ℕ) (e : ℤ) : bitsOf (shortest m e).value = bitsOf (m * 2 ^ e) := by
  obtain ⟨hden, hvalue⟩ := magnitude_eq m e
  simp only [shortest]
  cases hfound : (List.range 17).findSome? fun i =>
      ofCount? (nearest false (magnitude m e).1 (magnitude m e).2) (magnitude m e).1
        (magnitude m e).2 (orderOf (magnitude m e).1 (magnitude m e).2) (i + 1) with
  | none => rw [Option.getD_none, value_exact]
  | some d =>
    obtain ⟨i, -, htried⟩ := List.exists_of_findSome?_eq_some hfound
    have hreads := ofCount?_reads htried
    rw [toDouble_eq, nearest_eq false _ hden, hvalue] at hreads
    exact ofMagnitude_injective (bitsOf_le _) (bitsOf_le _) hreads

end Decimal

end CityTour
