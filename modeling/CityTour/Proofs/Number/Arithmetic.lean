import Mathlib
import CityTour.Proofs.Number.Packing

/-! Arithmetic on doubles.  A sum, a difference, a product or a quotient of doubles is the double
nearest to the exact result; here for numbers that are their own doubles, products and quotients of
those that are not negative.  A sum that is zero is a positive zero. -/

namespace CityTour.Double

open Float.Model Float.Model.UnpackedFloat

variable {q : ℚ}

/-- The double nearest to a rational number. -/
def rounded (q : ℚ) : Float := ofMagnitude (decide (q < 0)) (bitsOf |q|)

/-- A number that is its own double. -/
def Representable (q : ℚ) : Prop := ∃ m e, Canonical m e ∧ e ≤ 971 ∧ |q| = m * 2 ^ e

theorem rounded_of_nonneg (hq : 0 ≤ q) : rounded q = ofMagnitude false (bitsOf q) := by
  rw [rounded, decide_eq_false (not_lt.mpr hq), abs_of_nonneg hq]

theorem Representable.reading_eq (h : Representable q) : ∃ m e, Canonical m e ∧ e ≤ 971 ∧
    |q| = m * 2 ^ e ∧ reading (rounded q) = .finite (decide (q < 0)) m e := by
  obtain ⟨m, e, hcanonical, he, habs⟩ := h
  refine ⟨m, e, hcanonical, he, habs, ?_⟩
  rw [rounded, habs, bitsOf_of_canonical hcanonical he]
  exact reading_ofMagnitude hcanonical he

theorem sign_mul_abs (q : ℚ) : (if decide (q < 0) then -|q| else |q|) = q := by
  by_cases hq : q < 0
  · rw [decide_eq_true hq, abs_of_neg hq]
    simp
  · rw [decide_eq_false hq, abs_of_nonneg (not_lt.mp hq)]
    rfl

/-- A representable number is the value of its double. -/
theorem Representable.value_eq (h : Representable q) : value? (rounded q) = some q := by
  obtain ⟨m, e, -, -, habs, hreading⟩ := h.reading_eq
  rw [value?_of_reading hreading, exactValue_eq, ← habs, sign_mul_abs]

/-- The double of a representable number unpacks to a positive zero, or to the number. -/
theorem Representable.unpack_eq (h : Representable q) :
    q = 0 ∧ (rounded q).toModel.unpack = .zero .positive ∨
      q ≠ 0 ∧ ∃ m e, ∃ hm : 0 < m, Canonical m e ∧ e ≤ 971 ∧ |q| = m * 2 ^ e ∧
        (rounded q).toModel.unpack = .finite (signOf (decide (q < 0))) m e hm := by
  obtain ⟨m, e, hcanonical, he, habs, hreading⟩ := h.reading_eq
  rcases unpack_of_reading hreading with ⟨rfl, hunpack⟩ | ⟨hm, hunpack⟩
  · obtain rfl : q = 0 := by simpa using habs
    exact .inl ⟨rfl, by simpa using hunpack⟩
  · refine .inr ⟨?_, m, e, hm, hcanonical, he, habs, hunpack⟩
    rintro rfl
    have hpos : (0 : ℚ) < m * 2 ^ e := mul_pos (Nat.cast_pos.mpr hm) (zpow_pos two_pos e)
    rw [← habs, abs_zero] at hpos
    exact lt_irrefl 0 hpos

theorem ofModel_pack_zero : Float.ofModel (Float.Model.pack (.zero .positive)) = rounded 0 := by
  have hbits : (UnpackedFloat.pack Format.binary64 (.zero .positive)).toNat =
      signBit false + 0 := toNat_pack_zero .positive
  rw [ofModel_pack hbits]
  simp [rounded]

/-- A number up to one that is its own double is rounded to a double up to that one. -/
theorem exists_value_rounded {r : ℚ} (hq : 0 ≤ q) (hqr : q ≤ r) (hr : Representable r) :
    ∃ v, value? (rounded q) = some v ∧ 0 ≤ v ∧ v ≤ r := by
  obtain ⟨k, f, hk, hf, habs⟩ := hr
  rw [abs_of_nonneg (hq.trans hqr)] at habs
  have hbits : bitsOf r = canonicalBits k f := by
    rw [habs, bitsOf_of_canonical hk hf, canonicalBits]
  have hle := (bitsOf_mono hq hqr).trans_eq hbits
  obtain ⟨m, e, hm, he, hsame⟩ := exists_canonicalBits (hle.trans_lt (hk.bits_lt hf))
  have hreading : reading (rounded q) = .finite false m e := by
    rw [rounded_of_nonneg hq, ← hsame]
    exact reading_ofMagnitude hm he
  refine ⟨m * 2 ^ e, ?_, mul_nonneg (Nat.cast_nonneg m) (zpow_nonneg two_pos.le e), ?_⟩
  · rw [value?_of_reading hreading, exactValue_eq]
    rfl
  · -- A greater double would have greater bits.
    by_contra hlt
    have hge := bitsOf_mono (hq.trans hqr) (not_le.mp hlt).le
    rw [hbits, bitsOf_of_canonical hm he, ← canonicalBits, hsame] at hge
    have heq := reading_ofMagnitude (s := false) hm he
    rw [hsame, le_antisymm hle hge, reading_ofMagnitude hk hf, Reading.finite.injEq] at heq
    obtain ⟨-, rfl, rfl⟩ := heq
    exact hlt habs.ge

/-- The double nearest to a positive number below one holds a whole count of units. -/
theorem value_rounded_of_pos (hq : 0 < q) (hlt : q < 1) :
    value? (rounded q) = some (roundEven (q / 2 ^ unitOf q) * 2 ^ unitOf q : ℚ) := by
  have hunit := unitOf_le_of_lt_one hq hlt
  have hmin : -1074 ≤ unitOf q := le_max_left _ _
  have hle := roundEven_unit_le q
  obtain ⟨m, e, hm, he, hbits, hvalue⟩ : ∃ m e, Canonical m e ∧ e ≤ 971 ∧
      canonicalBits m e = bitsOf q ∧
      (m * 2 ^ e : ℚ) = roundEven (q / 2 ^ unitOf q) * 2 ^ unitOf q := by
    rcases hle.lt_or_eq with hfits | hcarry
    · refine ⟨_, unitOf q, ⟨hfits, hmin, ?_⟩, by omega, ?_, rfl⟩
      · by_cases hleast : unitOf q = -1074
        · exact .inl hleast
        · exact .inr (le_roundEven_unit hq hleast)
      · rw [bitsOf_of_pos hq, canonicalBits]
        omega
    · -- The mantissa that is rounded up to `2 ^ 53` carries into the exponent.
      refine ⟨2 ^ 52, unitOf q + 1, ⟨by norm_num, by omega, .inr le_rfl⟩, by omega, ?_, ?_⟩
      · rw [bitsOf_of_pos hq, canonicalBits, hcarry]
        omega
      · rw [hcarry, zpow_add_one₀ two_ne_zero]
        norm_num
        ring
  have hreading := reading_ofMagnitude (s := false) hm he
  rw [hbits, ← rounded_of_nonneg hq.le] at hreading
  rw [value?_of_reading hreading, exactValue_eq, ← hvalue]
  rfl

/-- Below one a number is rounded by at most half of the greatest unit. -/
theorem exists_value_rounded_near (hq : 0 ≤ q) (hlt : q < 1) :
    ∃ v, value? (rounded q) = some v ∧ |v - q| ≤ 2 ^ (-54 : ℤ) := by
  rcases hq.eq_or_lt with rfl | hpos
  · have hzero : Representable 0 :=
      ⟨0, -1074, ⟨by norm_num, le_rfl, .inl rfl⟩, by norm_num, by simp⟩
    exact ⟨0, hzero.value_eq, by simp⟩
  refine ⟨_, value_rounded_of_pos hpos hlt, ?_⟩
  calc |roundEven (q / 2 ^ unitOf q) * 2 ^ unitOf q - q|
      ≤ 2 ^ unitOf q / 2 := abs_roundEven_mul_unit_sub_le hq
    _ ≤ 2 ^ (-53 : ℤ) / 2 := div_le_div_of_nonneg_right
        (zpow_le_zpow_right₀ one_le_two (unitOf_le_of_lt_one hpos hlt)) zero_le_two
    _ = 2 ^ (-54 : ℤ) := by norm_num

/-- A signed mantissa with an exponent is rounded to the double nearest to it. -/
theorem ofModel_normalize (i : ℤ) (e : ℤ) : Float.ofModel (Float.Model.pack
    (UnpackedFloat.normalize Format.binary64 i e .positive)) = rounded (i * 2 ^ e) := by
  have hpow : (0 : ℚ) < 2 ^ e := zpow_pos two_pos e
  rcases lt_trichotomy i 0 with hneg | rfl | hpos
  · have hvalue : |(i * 2 ^ e : ℚ)| = (-i).toNat * 2 ^ e := by
      have hcast : (((-i).toNat : ℤ) : ℚ) = -i := by
        rw [Int.toNat_of_nonneg (by omega)]
        push_cast
        rfl
      rw [abs_mul, abs_of_pos hpow, abs_of_neg (by exact_mod_cast hneg), ← hcast]
      rfl
    have hlt : (i * 2 ^ e : ℚ) < 0 := mul_neg_of_neg_of_pos (by exact_mod_cast hneg) hpow
    have hround := ofModel_round true (show 0 < (-i).toNat by omega) e
    rw [UnpackedFloat.normalize, compare_lt_iff_lt.mpr hneg, rounded, decide_eq_true hlt, hvalue]
    exact hround
  · rw [UnpackedFloat.normalize, compare_eq_iff_eq.mpr rfl, Int.cast_zero, zero_mul]
    exact ofModel_pack_zero
  · have hvalue : (i * 2 ^ e : ℚ) = i.toNat * 2 ^ e := by
      have hcast : ((i.toNat : ℤ) : ℚ) = i := by rw [Int.toNat_of_nonneg hpos.le]
      rw [← hcast]
      rfl
    have hround := ofModel_round false (show 0 < i.toNat by omega) e
    rw [UnpackedFloat.normalize, compare_gt_iff_gt.mpr hpos, hvalue,
      rounded_of_nonneg (mul_nonneg (Nat.cast_nonneg _) hpow.le)]
    exact hround

theorem decreaseExponent_eq (m : ℕ) {e t : ℤ} (ht : t ≤ e) :
    ((decreaseExponent m e t).1 : ℚ) * 2 ^ t = m * 2 ^ e := by
  obtain ⟨k, rfl⟩ := Int.le.dest ht
  rw [decreaseExponent, show (t + k - t).toNat = k by omega, Nat.shiftLeft_eq,
    zpow_add₀ two_ne_zero, zpow_natCast]
  push_cast
  ring

/-- A magnitude under the sign of a number is the number, in units of any smaller power of two. -/
theorem apply_decreaseExponent {m : ℕ} {e t : ℤ} (habs : |q| = m * 2 ^ e) (ht : t ≤ e) :
    (((signOf (decide (q < 0))).apply (decreaseExponent m e t).1 : ℤ) : ℚ) * 2 ^ t = q := by
  have hvalue := decreaseExponent_eq m ht
  rw [← habs] at hvalue
  by_cases hq : q < 0
  · rw [decide_eq_true hq]
    show ((-((decreaseExponent m e t).1 : ℤ) : ℤ) : ℚ) * 2 ^ t = q
    push_cast
    rw [neg_mul, hvalue, abs_of_neg hq, neg_neg]
  · rw [decide_eq_false hq]
    show (((decreaseExponent m e t).1 : ℤ) : ℚ) * 2 ^ t = q
    push_cast
    rw [hvalue, abs_of_nonneg (not_lt.mp hq)]

theorem ofModel_pack_of_unpack {x : Float} {u : UnpackedFloat} (h : x.toModel.unpack = u) :
    Float.ofModel (Float.Model.pack u) = x := by
  rw [← h, ofModel_pack_unpack]

variable {a b : ℚ}

theorem add_rounded (ha : Representable a) (hb : Representable b) :
    rounded a + rounded b = rounded (a + b) := by
  show Float.ofModel (Float.Model.pack (UnpackedFloat.add Format.binary64
    (rounded a).toModel.unpack (rounded b).toModel.unpack)) = _
  rcases ha.unpack_eq with ⟨rfl, hua⟩ | ⟨-, m, e, hm, -, -, haabs, hua⟩
  · rcases hb.unpack_eq with ⟨rfl, hub⟩ | ⟨-, k, f, hk, -, -, -, hub⟩
    · rw [hua, add_zero]
      exact ofModel_pack_zero
    · rw [hua, hub, zero_add]
      exact ofModel_pack_of_unpack hub
  · rcases hb.unpack_eq with ⟨rfl, hub⟩ | ⟨-, k, f, hk, -, -, hbabs, hub⟩
    · rw [hua, hub, add_zero]
      exact ofModel_pack_of_unpack hua
    · have hsum := ofModel_normalize ((signOf (decide (a < 0))).apply
        (decreaseExponent m e (min e f)).1 + (signOf (decide (b < 0))).apply
        (decreaseExponent k f (min e f)).1) (min e f)
      rw [Int.cast_add, add_mul, apply_decreaseExponent haabs (min_le_left e f),
        apply_decreaseExponent hbabs (min_le_right e f)] at hsum
      rw [hua, hub]
      exact hsum

theorem rounded_neg (hb : b ≠ 0) : rounded (-b) = ofMagnitude (!decide (b < 0)) (bitsOf |b|) := by
  have hsign : decide (-b < 0) = !decide (b < 0) := by
    rcases hb.lt_or_gt with hlt | hgt
    · simp [hlt, hlt.le]
    · simp [hgt, hgt.le]
  rw [rounded, abs_neg, hsign]

theorem neg_rounded (hb : Representable b) (hb0 : b ≠ 0) : -rounded b = rounded (-b) := by
  show Float.ofModel (Float.Model.pack (rounded b).toModel.unpack.neg) = _
  obtain ⟨-, k, f, hk, hcanonical, hf, hbabs, hub⟩ := hb.unpack_eq.resolve_left fun h => hb0 h.1
  rw [hub, rounded_neg hb0, hbabs, bitsOf_of_canonical hcanonical hf]
  apply ofModel_pack
  have hpack := toNat_pack_finite (-signOf (decide (b < 0))) hcanonical hk
  rw [min_eq_right (hcanonical.bits_lt hf).le] at hpack
  refine hpack.trans ?_
  cases decide (b < 0) <;> rfl

theorem sub_rounded (ha : Representable a) (hb : Representable b) :
    rounded a - rounded b = rounded (a - b) := by
  show Float.ofModel (Float.Model.pack (UnpackedFloat.sub Format.binary64
    (rounded a).toModel.unpack (rounded b).toModel.unpack)) = _
  rcases ha.unpack_eq with ⟨rfl, hua⟩ | ⟨-, m, e, hm, -, -, haabs, hua⟩
  · rcases hb.unpack_eq with ⟨rfl, hub⟩ | ⟨hb0, k, f, hk, -, -, -, hub⟩
    · rw [hua, sub_zero]
      exact ofModel_pack_zero
    · have hneg := neg_rounded hb hb0
      rw [hua, zero_sub, ← hneg, hub]
      show _ = Float.ofModel (Float.Model.pack (rounded b).toModel.unpack.neg)
      rw [hub]
      rfl
  · rcases hb.unpack_eq with ⟨rfl, hub⟩ | ⟨-, k, f, hk, -, -, hbabs, hub⟩
    · rw [hua, hub, sub_zero]
      exact ofModel_pack_of_unpack hua
    · have hdiff := ofModel_normalize ((signOf (decide (a < 0))).apply
        (decreaseExponent m e (min e f)).1 - (signOf (decide (b < 0))).apply
        (decreaseExponent k f (min e f)).1) (min e f)
      rw [Int.cast_sub, sub_mul, apply_decreaseExponent haabs (min_le_left e f),
        apply_decreaseExponent hbabs (min_le_right e f)] at hdiff
      rw [hua, hub]
      exact hdiff

theorem log2_of_canonical {m : ℕ} {e : ℤ} (h : Canonical m e) (hm : 0 < m) :
    m.log2 < 53 ∧ (e = -1074 ∨ 52 ≤ m.log2) :=
  ⟨(Nat.log2_lt hm.ne').mpr h.mantissa_lt, h.normal.imp_right (Nat.le_log2 hm.ne').mpr⟩

theorem mul_rounded (ha : Representable a) (hb : Representable b) (ha0 : 0 ≤ a) (hb0 : 0 ≤ b) :
    rounded a * rounded b = rounded (a * b) := by
  show Float.ofModel (Float.Model.pack (UnpackedFloat.mul Format.binary64
    (rounded a).toModel.unpack (rounded b).toModel.unpack)) = _
  rcases ha.unpack_eq with ⟨rfl, hua⟩ | ⟨hane, m, e, hm, hca, -, haabs, hua⟩
  · rcases hb.unpack_eq with ⟨rfl, hub⟩ | ⟨-, k, f, hk, -, -, -, hub⟩
    · rw [hua, zero_mul]
      exact ofModel_pack_zero
    · rw [hua, hub, zero_mul, decide_eq_false (not_lt.mpr hb0)]
      exact ofModel_pack_zero
  · rcases hb.unpack_eq with ⟨rfl, hub⟩ | ⟨hbne, k, f, hk, hcb, -, hbabs, hub⟩
    · rw [hua, hub, mul_zero, decide_eq_false (not_lt.mpr ha0)]
      exact ofModel_pack_zero
    · have hpos : 0 < m * k := Nat.mul_pos hm hk
      rw [abs_of_nonneg ha0] at haabs
      rw [abs_of_nonneg hb0] at hbabs
      have hvalue : a * b / 2 ^ (e + f) = (m * k : ℕ) := by
        rw [haabs, hbabs, zpow_add₀ two_ne_zero, div_eq_iff (by positivity)]
        push_cast
        ring
      have hunit : Format.binary64.targetExponent (totalExponent (m * k) (e + f)) =
          unitOf (a * b) := by
        apply targetExponent_eq_unitOf hpos
        · rw [hvalue]
        · rw [hvalue]
          exact lt_add_one _
      -- The product of two normal mantissas has bits enough, and a subnormal one is far below.
      have hle : e + f ≤ unitOf (a * b) := by
        have hlog : m.log2 + k.log2 ≤ (m * k).log2 := by
          rw [Nat.le_log2 hpos.ne', pow_add]
          exact Nat.mul_le_mul (Nat.log2_self_le hm.ne') (Nat.log2_self_le hk.ne')
        obtain ⟨-, hnm⟩ := log2_of_canonical hca hm
        obtain ⟨-, hnk⟩ := log2_of_canonical hcb hk
        rw [← hunit, targetExponent_eq]
        omega
      rw [hua, hub, rounded_of_nonneg (mul_nonneg ha0 hb0), decide_eq_false (not_lt.mpr ha0),
        decide_eq_false (not_lt.mpr hb0)]
      apply ofModel_roundWithAccuracy false _ _ hle hunit
      · exact mul_pos (lt_of_le_of_ne ha0 hane.symm) (lt_of_le_of_ne hb0 hbne.symm)
      · rw [hvalue]
        exact represents_exact _

/-! ### Quotients -/

section Quotient

variable {m k : ℕ} {e f t : ℤ}

/-- The mantissa of a quotient in units of `2 ^ t`. -/
def quotient (m k : ℕ) (e f t : ℤ) : ℕ := m <<< (e - f - t).toNat / k

/-- A quotient is its mantissa and the rest of the division. -/
theorem represents_quotient (hk : 0 < k) (ht : t ≤ e - f) :
    Represents (ExtendedMantissa.ofMantissaAndAccuracy (quotient m k e f t)
      (accuracyOfFraction (m <<< (e - f - t).toNat % k) k)) (m * 2 ^ e / (k * 2 ^ f) / 2 ^ t) := by
  have hkpos : (0 : ℚ) < k := Nat.cast_pos.mpr hk
  have hne : ∀ i : ℤ, (2 : ℚ) ^ i ≠ 0 := fun i => zpow_ne_zero i two_ne_zero
  obtain ⟨d, hd⟩ : ∃ d : ℕ, e - f - t = d := ⟨(e - f - t).toNat, by omega⟩
  have hshift : (2 : ℚ) ^ d * 2 ^ t * 2 ^ f = 2 ^ e := by
    rw [← zpow_natCast, ← zpow_add₀ two_ne_zero, ← zpow_add₀ two_ne_zero]
    congr 1
    omega
  have hsplit : ((m <<< d : ℕ) : ℚ) = k * (m <<< d / k : ℕ) + (m <<< d % k : ℕ) := by
    exact_mod_cast (Nat.div_add_mod _ k).symm
  have hvalue : (m * 2 ^ e / (k * 2 ^ f) / 2 ^ t : ℚ) =
      (m <<< d / k : ℕ) + ((m <<< d % k : ℕ) / k : ℚ) := by
    calc (m * 2 ^ e / (k * 2 ^ f) / 2 ^ t : ℚ) = (m <<< d : ℕ) / k := by
          rw [Nat.shiftLeft_eq, div_div, div_eq_div_iff
            (mul_ne_zero (mul_ne_zero hkpos.ne' (hne f)) (hne t)) hkpos.ne', ← hshift]
          push_cast
          ring
      _ = (m <<< d / k : ℕ) + ((m <<< d % k : ℕ) / k : ℚ) := by
          rw [hsplit, add_div, mul_div_cancel_left₀ _ hkpos.ne']
  have hrep := represents_fraction (m <<< d / k) (Nat.mod_lt (m <<< d) hk)
  rw [quotient, hd, Int.toNat_natCast, hvalue]
  exact hrep

theorem le_log_quotient (hm : 0 < m) (hk : 0 < k) :
    (m.log2 : ℤ) - k.log2 - 1 + (e - f) ≤ Int.log 2 (m * 2 ^ e / (k * 2 ^ f) : ℚ) := by
  have hpow : ∀ i : ℤ, (0 : ℚ) < 2 ^ i := fun i => zpow_pos two_pos i
  have hpos : (0 : ℚ) < m * 2 ^ e / (k * 2 ^ f) :=
    div_pos (mul_pos (Nat.cast_pos.mpr hm) (hpow e)) (mul_pos (Nat.cast_pos.mpr hk) (hpow f))
  have hparts : (m * 2 ^ e / (k * 2 ^ f) : ℚ) = m / k * 2 ^ (e - f) := by
    rw [zpow_sub₀ two_ne_zero, div_mul_div_comm]
  apply (Int.zpow_le_iff_le_log one_lt_two hpos).mp
  rw [Nat.cast_ofNat, hparts, zpow_add₀ two_ne_zero]
  exact mul_le_mul_of_nonneg_right (log2_div_bounds hm hk).1 (hpow _).le

theorem targetExponent_sub (m k : ℕ) (e f : ℤ) :
    Format.binary64.targetExponent (totalExponent m e - totalExponent k f) =
      max ((m.log2 : ℤ) - k.log2 + (e - f) - 53) (-1074) := by
  have hbits : Format.binary64.mantissaBits = 53 := rfl
  have hmin : Format.binary64.minExponent = -1074 := by decide
  rw [Format.targetExponent, totalExponent, totalExponent, hbits, hmin]
  congr 1
  push_cast
  ring

/-- A quotient that starts with bits enough has the exponent of its number. -/
theorem targetExponent_quotient (hm : 0 < m) (hk : 0 < k) (ht : t ≤ e - f)
    (hle : t ≤ max ((m.log2 : ℤ) - k.log2 + (e - f) - 53) (-1074)) :
    Format.binary64.targetExponent (totalExponent (quotient m k e f t) t) =
      unitOf (m * 2 ^ e / (k * 2 ^ f)) := by
  have hpow : ∀ i : ℤ, (0 : ℚ) < 2 ^ i := fun i => zpow_pos two_pos i
  have hpos : (0 : ℚ) < m * 2 ^ e / (k * 2 ^ f) :=
    div_pos (mul_pos (Nat.cast_pos.mpr hm) (hpow e)) (mul_pos (Nat.cast_pos.mpr hk) (hpow f))
  obtain ⟨hlo, hhi⟩ := (represents_quotient (m := m) hk ht).bounds
  rw [mantissa_ofMantissaAndAccuracy] at hlo hhi
  rcases Nat.eq_zero_or_pos (quotient m k e f t) with hzero | hquotient
  · -- Without a single bit the number is below the least double.
    have hsmall : Int.log 2 (m * 2 ^ e / (k * 2 ^ f) : ℚ) < t := by
      apply (Int.lt_zpow_iff_log_lt one_lt_two hpos).mp
      rw [hzero, Nat.cast_zero, zero_add, div_lt_one (hpow t)] at hhi
      exact_mod_cast hhi
    have hlog := le_log_quotient (e := e) (f := f) hm hk
    rw [hzero, targetExponent_eq, Nat.log2_zero, unitOf]
    omega
  · exact targetExponent_eq_unitOf hquotient hlo hhi

end Quotient

theorem div_rounded (ha : Representable a) (hb : Representable b) (ha0 : 0 ≤ a) (hb0 : 0 < b) :
    rounded a / rounded b = rounded (a / b) := by
  show Float.ofModel (Float.Model.pack (UnpackedFloat.div Format.binary64
    (rounded a).toModel.unpack (rounded b).toModel.unpack)) = _
  obtain ⟨-, k, f, hk, -, -, hbabs, hub⟩ := hb.unpack_eq.resolve_left fun h => hb0.ne' h.1
  rcases ha.unpack_eq with ⟨rfl, hua⟩ | ⟨hane, m, e, hm, -, -, haabs, hua⟩
  · rw [hua, hub, zero_div, decide_eq_false (not_lt.mpr hb0.le)]
    exact ofModel_pack_zero
  have hpos : 0 < a / b := div_pos (lt_of_le_of_ne ha0 hane.symm) hb0
  rw [abs_of_nonneg ha0] at haabs
  rw [abs_of_pos hb0] at hbabs
  -- The unit `t` of the first quotient leaves more bits than a double holds, so it is rounded once.
  obtain ⟨t, ht⟩ : ∃ t, min (e - f) (Format.binary64.targetExponent
      (totalExponent m e - totalExponent k f)) = t := ⟨_, rfl⟩
  have hle : t ≤ e - f ∧ t ≤ max ((m.log2 : ℤ) - k.log2 + (e - f) - 53) (-1074) := by
    rw [← targetExponent_sub, ← ht]
    exact ⟨min_le_left _ _, min_le_right _ _⟩
  have hrep := represents_quotient (m := m) hk hle.1
  have htarget := targetExponent_quotient hm hk hle.1 hle.2
  have hunit : t ≤ unitOf (a / b) := by
    have hlog := le_log_quotient (e := e) (f := f) hm hk
    rw [haabs, hbabs, unitOf]
    omega
  rw [← haabs, ← hbabs] at hrep htarget
  rw [hua, hub, rounded_of_nonneg hpos.le, decide_eq_false (not_lt.mpr ha0),
    decide_eq_false (not_lt.mpr hb0.le)]
  simp only [UnpackedFloat.div, divCore, ht]
  exact ofModel_roundWithAccuracy false hpos hrep hunit htarget

end CityTour.Double
