import Mathlib
import CityTour.Number.Decimal

/-! Rounding to doubles as a function of the exact number.  `nearestBits` takes a quotient of
natural numbers; `bitsOf` says that its result depends on the rational number alone
(`nearestBits_eq`).  It keeps the order of numbers, and a number that is its own double keeps its
mantissa and its exponent (`bitsOf_of_canonical`). -/

namespace CityTour.Double

/-! ### The nearest natural number -/

/-- The nearest natural number, a tie to the even one. -/
def roundEven (q : ℚ) : ℕ :=
  if q - ⌊q⌋₊ < 1 / 2 ∨ q - ⌊q⌋₊ = 1 / 2 ∧ ⌊q⌋₊ % 2 = 0 then ⌊q⌋₊ else ⌊q⌋₊ + 1

theorem roundEven_natCast (k : ℕ) : roundEven k = k := by
  rw [roundEven, Nat.floor_natCast, if_pos (by simp)]

theorem floor_le_roundEven (q : ℚ) : ⌊q⌋₊ ≤ roundEven q := by
  rw [roundEven]
  split
  · exact le_rfl
  · exact Nat.le_succ _

theorem roundEven_le_succ_floor (q : ℚ) : roundEven q ≤ ⌊q⌋₊ + 1 := by
  rw [roundEven]
  split
  · exact Nat.le_succ _
  · exact le_rfl

theorem roundEven_mono {q r : ℚ} (h : q ≤ r) : roundEven q ≤ roundEven r := by
  rcases (Nat.floor_le_floor h).lt_or_eq with hlt | heq
  · calc roundEven q ≤ ⌊q⌋₊ + 1 := roundEven_le_succ_floor q
      _ ≤ ⌊r⌋₊ := hlt
      _ ≤ roundEven r := floor_le_roundEven r
  · -- Between the same two natural numbers, only the greater one can be rounded up alone.
    rw [roundEven, roundEven, heq]
    split
    · split
      · exact le_rfl
      · exact Nat.le_succ _
    · rename_i hup
      rw [if_neg]
      rintro (hlt | ⟨htie, heven⟩)
      · exact hup (.inl (by linarith))
      · rcases (show q - ⌊r⌋₊ ≤ 1 / 2 by linarith).lt_or_eq with hlt | heq
        · exact hup (.inl hlt)
        · exact hup (.inr ⟨heq, heven⟩)

theorem roundEven_le {q : ℚ} {k : ℕ} (h : q ≤ k) : roundEven q ≤ k :=
  (roundEven_mono h).trans_eq (roundEven_natCast k)

theorem le_roundEven {q : ℚ} {k : ℕ} (h : (k : ℚ) ≤ q) : k ≤ roundEven q :=
  (roundEven_natCast k).symm.trans_le (roundEven_mono h)

theorem abs_roundEven_sub_le {q : ℚ} (hq : 0 ≤ q) : |roundEven q - q| ≤ 1 / 2 := by
  have hlo := Nat.floor_le hq
  have hhi := Nat.lt_floor_add_one q
  rw [abs_le, roundEven]
  split
  · rename_i hdown
    have hle : q - ⌊q⌋₊ ≤ 1 / 2 := hdown.elim le_of_lt fun h => h.1.le
    constructor <;> linarith
  · rename_i hup
    have hge : 1 / 2 ≤ q - ⌊q⌋₊ := not_lt.mp fun hlt => hup (.inl hlt)
    push_cast
    constructor <;> linarith

theorem roundQuotient_eq (num : ℕ) {den : ℕ} (hden : 0 < den) :
    roundQuotient num den = roundEven (num / den) := by
  have hpos : (0 : ℚ) < den := Nat.cast_pos.mpr hden
  have hfloor : ⌊(num / den : ℚ)⌋₊ = num / den := Nat.floor_div_eq_div num den
  have hrest : (num / den : ℚ) - (num / den : ℕ) = (num % den : ℕ) / den := by
    have hsplit : (num : ℚ) = den * (num / den : ℕ) + (num % den : ℕ) := by
      exact_mod_cast (Nat.div_add_mod num den).symm
    rw [eq_div_iff hpos.ne', sub_mul, div_mul_cancel₀ _ hpos.ne']
    linarith
  have hlt : ((num % den : ℕ) / den : ℚ) < 1 / 2 ↔ 2 * (num % den) < den := by
    rw [div_lt_div_iff₀ hpos two_pos, one_mul, mul_comm]
    exact_mod_cast Iff.rfl
  have heq : ((num % den : ℕ) / den : ℚ) = 1 / 2 ↔ 2 * (num % den) = den := by
    rw [div_eq_div_iff hpos.ne' two_ne_zero, one_mul, mul_comm]
    exact_mod_cast Iff.rfl
  simp only [roundQuotient, roundEven, hfloor, hrest, hlt, heq]

/-! ### The exponent of the last bit -/

/-- The exponent of the last mantissa bit of the doubles near a positive number. -/
def unitOf (q : ℚ) : ℤ := max (-1074) (Int.log 2 q - 52)

theorem unitOf_mono {q r : ℚ} (hq : 0 < q) (h : q ≤ r) : unitOf q ≤ unitOf r :=
  max_le_max le_rfl (sub_le_sub_right (Int.log_mono_right hq h) 52)

theorem log_eq_of_bounds {q : ℚ} {k : ℤ} (hlo : (2 : ℚ) ^ k ≤ q) (hhi : q < 2 ^ (k + 1)) :
    Int.log 2 q = k := by
  have hpos : 0 < q := lt_of_lt_of_le (zpow_pos two_pos k) hlo
  have hle : k ≤ Int.log 2 q := (Int.zpow_le_iff_le_log one_lt_two hpos).mp (by exact_mod_cast hlo)
  have hlt : Int.log 2 q < k + 1 :=
    (Int.lt_zpow_iff_log_lt one_lt_two hpos).mp (by exact_mod_cast hhi)
  omega

theorem unitOf_le_of_lt_one {q : ℚ} (hq : 0 < q) (hlt : q < 1) : unitOf q ≤ -53 := by
  have hlog : Int.log 2 q < 0 :=
    (Int.lt_zpow_iff_log_lt one_lt_two hq).mp (by rwa [zpow_zero])
  rw [unitOf]
  omega

/-- In units of its last bit a number is below `2 ^ 53`. -/
theorem div_unitOf_lt (q : ℚ) : q / 2 ^ unitOf q < 2 ^ 53 := by
  have hlog : q < 2 ^ (Int.log 2 q + 1) := by exact_mod_cast Int.lt_zpow_succ_log_self one_lt_two q
  have hunit : Int.log 2 q - 52 ≤ unitOf q := le_max_right _ _
  rw [div_lt_iff₀ (zpow_pos two_pos _)]
  calc q < 2 ^ (Int.log 2 q + 1) := hlog
    _ ≤ 2 ^ (53 + unitOf q) := zpow_le_zpow_right₀ one_le_two (by omega)
    _ = 2 ^ 53 * 2 ^ unitOf q := by rw [zpow_add₀ two_ne_zero]; norm_num

/-- In units of its last bit a number is at least `2 ^ 52`, unless that bit is the last one of
all. -/
theorem le_div_unitOf {q : ℚ} (hq : 0 < q) (h : unitOf q ≠ -1074) : 2 ^ 52 ≤ q / 2 ^ unitOf q := by
  have hlog : (2 : ℚ) ^ Int.log 2 q ≤ q := by exact_mod_cast Int.zpow_log_le_self one_lt_two hq
  have hunit : unitOf q = Int.log 2 q - 52 := by
    unfold unitOf at h ⊢
    omega
  rw [le_div_iff₀ (zpow_pos two_pos _)]
  calc (2 : ℚ) ^ 52 * 2 ^ unitOf q = 2 ^ (52 + unitOf q) := by
        rw [zpow_add₀ two_ne_zero]; norm_num
    _ = 2 ^ Int.log 2 q := by rw [hunit]; congr 1; omega
    _ ≤ q := hlog

theorem roundEven_unit_le (q : ℚ) : roundEven (q / 2 ^ unitOf q) ≤ 2 ^ 53 :=
  roundEven_le (by exact_mod_cast (div_unitOf_lt q).le)

theorem le_roundEven_unit {q : ℚ} (hq : 0 < q) (h : unitOf q ≠ -1074) :
    2 ^ 52 ≤ roundEven (q / 2 ^ unitOf q) :=
  le_roundEven (by exact_mod_cast le_div_unitOf hq h)

/-- The nearest whole count of units is at most half a unit off. -/
theorem abs_roundEven_mul_unit_sub_le {q : ℚ} (hq : 0 ≤ q) :
    |roundEven (q / 2 ^ unitOf q) * 2 ^ unitOf q - q| ≤ 2 ^ unitOf q / 2 := by
  have hpow : (0 : ℚ) < 2 ^ unitOf q := zpow_pos two_pos _
  calc |roundEven (q / 2 ^ unitOf q) * 2 ^ unitOf q - q|
      = |(roundEven (q / 2 ^ unitOf q) - q / 2 ^ unitOf q) * 2 ^ unitOf q| := by
        rw [sub_mul, div_mul_cancel₀ _ hpow.ne']
    _ = |roundEven (q / 2 ^ unitOf q) - q / 2 ^ unitOf q| * 2 ^ unitOf q := by
        rw [abs_mul, abs_of_pos hpow]
    _ ≤ 1 / 2 * 2 ^ unitOf q :=
        mul_le_mul_of_nonneg_right (abs_roundEven_sub_le (div_nonneg hq hpow.le)) hpow.le
    _ = 2 ^ unitOf q / 2 := by ring

/-- The quotient in units of a power of two. -/
theorem inUnits_eq (num : ℕ) {den : ℕ} (hden : 0 < den) (e : ℤ) :
    0 < (inUnits num den e).2 ∧
      ((inUnits num den e).1 / (inUnits num den e).2 : ℚ) = num / den / 2 ^ e := by
  unfold inUnits
  by_cases he : e < 0
  · obtain ⟨k, rfl⟩ := Int.exists_eq_neg_ofNat he.le
    rw [if_pos he]
    simp [hden, zpow_neg, div_mul_eq_mul_div]
  · obtain ⟨k, rfl⟩ := Int.eq_ofNat_of_zero_le (not_lt.mp he)
    rw [if_neg he]
    simp [hden, div_div]

theorem log2_bounds {k : ℕ} (hk : 0 < k) :
    (2 : ℚ) ^ (k.log2 : ℤ) ≤ k ∧ (k : ℚ) < 2 ^ (k.log2 + 1 : ℤ) := by
  constructor
  · exact_mod_cast Nat.log2_self_le hk.ne'
  · exact_mod_cast Nat.lt_log2_self

/-- The binary logarithms of a quotient and of its parts. -/
theorem log2_div_bounds {num den : ℕ} (hnum : 0 < num) (hden : 0 < den) :
    (2 : ℚ) ^ ((num.log2 : ℤ) - den.log2 - 1) ≤ num / den ∧
      (num / den : ℚ) < 2 ^ ((num.log2 : ℤ) - den.log2 + 1) := by
  have hpos : (0 : ℚ) < den := Nat.cast_pos.mpr hden
  obtain ⟨hnlo, hnhi⟩ := log2_bounds hnum
  obtain ⟨hdlo, hdhi⟩ := log2_bounds hden
  constructor
  · rw [le_div_iff₀ hpos]
    calc (2 : ℚ) ^ ((num.log2 : ℤ) - den.log2 - 1) * den
        ≤ 2 ^ ((num.log2 : ℤ) - den.log2 - 1) * 2 ^ (den.log2 + 1 : ℤ) :=
          mul_le_mul_of_nonneg_left hdhi.le (zpow_nonneg two_pos.le _)
      _ = 2 ^ (num.log2 : ℤ) := by rw [← zpow_add₀ two_ne_zero]; congr 1; omega
      _ ≤ num := hnlo
  · rw [div_lt_iff₀ hpos]
    calc (num : ℚ) < 2 ^ (num.log2 + 1 : ℤ) := hnhi
      _ = 2 ^ ((num.log2 : ℤ) - den.log2 + 1) * 2 ^ (den.log2 : ℤ) := by
          rw [← zpow_add₀ two_ne_zero]; congr 1; omega
      _ ≤ 2 ^ ((num.log2 : ℤ) - den.log2 + 1) * den :=
          mul_le_mul_of_nonneg_left hdlo (zpow_nonneg two_pos.le _)

theorem unitExponent_eq {num den : ℕ} (hnum : 0 < num) (hden : 0 < den) :
    unitExponent num den = unitOf (num / den) := by
  -- The guess is the exponent or one less.
  obtain ⟨hlo, hhi⟩ := log2_div_bounds hnum hden
  obtain ⟨hscale, hquot⟩ := inUnits_eq num hden ((num.log2 : ℤ) - den.log2 - 53)
  have hfits : (inUnits num den ((num.log2 : ℤ) - den.log2 - 53)).1 /
      (inUnits num den ((num.log2 : ℤ) - den.log2 - 53)).2 < 2 ^ 53 ↔
        (num / den : ℚ) < 2 ^ ((num.log2 : ℤ) - den.log2) := by
    rw [Nat.div_lt_iff_lt_mul hscale, ← Nat.cast_lt (α := ℚ), Nat.cast_mul,
      ← div_lt_iff₀ (Nat.cast_pos.mpr hscale), hquot, div_lt_iff₀ (zpow_pos two_pos _)]
    have hpow : ((2 ^ 53 : ℕ) : ℚ) * 2 ^ ((num.log2 : ℤ) - den.log2 - 53) =
        2 ^ ((num.log2 : ℤ) - den.log2) := by
      rw [show ((2 ^ 53 : ℕ) : ℚ) = 2 ^ (53 : ℤ) by norm_num, ← zpow_add₀ two_ne_zero]
      congr 1
      omega
    rw [hpow]
  simp only [unitExponent, unitOf, Nat.pow_eq, hfits]
  congr 1
  by_cases hlt : (num / den : ℚ) < 2 ^ ((num.log2 : ℤ) - den.log2)
  · rw [if_pos hlt, log_eq_of_bounds hlo (by rwa [Int.sub_add_cancel])]
    omega
  · rw [if_neg hlt, log_eq_of_bounds (not_lt.mp hlt) hhi]
    omega

/-! ### The bits of the nearest double -/

/-- The bits of the double nearest to a number that is not negative. -/
def bitsOf (q : ℚ) : ℕ :=
  if q = 0 then 0
  else min (2047 * 2 ^ 52) ((unitOf q + 1074).toNat * 2 ^ 52 + roundEven (q / 2 ^ unitOf q))

@[simp] theorem bitsOf_zero : bitsOf 0 = 0 := if_pos rfl

theorem bitsOf_of_pos {q : ℚ} (hq : 0 < q) : bitsOf q =
    min (2047 * 2 ^ 52) ((unitOf q + 1074).toNat * 2 ^ 52 + roundEven (q / 2 ^ unitOf q)) :=
  if_neg hq.ne'

theorem nearestBits_eq {num den : ℕ} (hnum : 0 < num) (hden : 0 < den) :
    nearestBits num den = bitsOf (num / den) := by
  have hpos : (0 : ℚ) < num / den := div_pos (Nat.cast_pos.mpr hnum) (Nat.cast_pos.mpr hden)
  obtain ⟨hscale, hquot⟩ := inUnits_eq num hden (unitExponent num den)
  rw [unitExponent_eq hnum hden] at hscale hquot
  simp only [nearestBits, unitExponent_eq hnum hden, roundQuotient_eq _ hscale, hquot, Nat.pow_eq,
    bitsOf_of_pos hpos]

theorem bitsOf_le (q : ℚ) : bitsOf q ≤ 2047 * 2 ^ 52 := by
  rw [bitsOf]
  split
  · exact Nat.zero_le _
  · exact min_le_left _ _

/-- Rounding keeps the order of numbers. -/
theorem bitsOf_mono {q r : ℚ} (hq : 0 ≤ q) (h : q ≤ r) : bitsOf q ≤ bitsOf r := by
  rcases hq.eq_or_lt with rfl | hq
  · rw [bitsOf_zero]
    exact Nat.zero_le _
  have hr := hq.trans_le h
  rw [bitsOf_of_pos hq, bitsOf_of_pos hr]
  refine min_le_min le_rfl ?_
  rcases (unitOf_mono hq h).lt_or_eq with hlt | heq
  · have hmin : -1074 ≤ unitOf q := le_max_left _ _
    have hupper := roundEven_unit_le q
    have hlower := le_roundEven_unit hr (by omega)
    omega
  · rw [heq]
    exact Nat.add_le_add_left (roundEven_mono (div_le_div_of_nonneg_right h
      (zpow_nonneg two_pos.le _))) _

/-- A mantissa and an exponent as doubles have them: fifty-three bits, or fewer with the least
exponent. -/
structure Canonical (m : ℕ) (e : ℤ) : Prop where
  mantissa_lt : m < 2 ^ 53
  le_exponent : -1074 ≤ e
  normal : e = -1074 ∨ 2 ^ 52 ≤ m

theorem unitOf_of_canonical {m : ℕ} {e : ℤ} (h : Canonical m e) (hm : 0 < m) :
    unitOf (m * 2 ^ e) = e := by
  have hpow : (0 : ℚ) < 2 ^ e := zpow_pos two_pos e
  have hpos : (0 : ℚ) < m * 2 ^ e := mul_pos (Nat.cast_pos.mpr hm) hpow
  have hlt : (m * 2 ^ e : ℚ) < 2 ^ (53 + e) := by
    rw [zpow_add₀ two_ne_zero]
    exact mul_lt_mul_of_pos_right (by exact_mod_cast h.mantissa_lt) hpow
  have hlog := (Int.lt_zpow_iff_log_lt one_lt_two hpos).mp (by exact_mod_cast hlt)
  have hmin := h.le_exponent
  unfold unitOf
  rcases h.normal with he | hnormal
  · omega
  · have hle : (2 : ℚ) ^ (52 + e) ≤ m * 2 ^ e := by
      rw [zpow_add₀ two_ne_zero]
      exact mul_le_mul_of_nonneg_right (by exact_mod_cast hnormal) hpow.le
    have hlog' := (Int.zpow_le_iff_le_log one_lt_two hpos).mp (by exact_mod_cast hle)
    omega

/-- A number that is a double keeps its mantissa and its exponent. -/
theorem bitsOf_of_canonical {m : ℕ} {e : ℤ} (h : Canonical m e) (he : e ≤ 971) :
    bitsOf (m * 2 ^ e) = (e + 1074).toNat * 2 ^ 52 + m := by
  have hpow : (0 : ℚ) < 2 ^ e := zpow_pos two_pos e
  have hlt := h.mantissa_lt
  rcases Nat.eq_zero_or_pos m with rfl | hm
  · obtain rfl : e = -1074 := h.normal.resolve_right (by norm_num)
    simp
  · rw [bitsOf_of_pos (mul_pos (Nat.cast_pos.mpr hm) hpow), unitOf_of_canonical h hm,
      mul_div_cancel_right₀ _ hpow.ne', roundEven_natCast]
    omega

end CityTour.Double
