import Mathlib
import CityTour.Proofs.Number.Arithmetic

/-! Counting with doubles.  Integers up to `2 ^ 53` are their own doubles, so doubles compute with
them exactly; an integer beyond may be rounded, but keeps its sign.  Proper fractions of one
denominator are rounded, but are too far apart for rounding to make them one. -/

namespace CityTour

open Scalar

namespace Double

theorem ofInt_eq_rounded (i : ℤ) : Double.ofInt i = rounded i := by
  have habs : (i.natAbs / (1 : ℕ) : ℚ) = |(i : ℚ)| := by
    rw [Nat.cast_one, div_one, Nat.cast_natAbs, Int.cast_abs]
  have hneg : decide (i < 0) = decide ((i : ℚ) < 0) := by simp
  rw [Double.ofInt, nearest_eq _ _ one_pos, habs, hneg, rounded]

/-- Integers up to `2 ^ 53` are their own doubles. -/
theorem representable_intCast {i : ℤ} (hi : |i| ≤ 2 ^ 53) : Representable i := by
  have habs : (|(i : ℚ)|) = (i.natAbs : ℚ) := by rw [Nat.cast_natAbs, Int.cast_abs]
  have hle : i.natAbs ≤ 2 ^ 53 := by
    rw [← Int.natCast_natAbs] at hi
    exact_mod_cast hi
  unfold Representable
  rw [habs]
  rcases Nat.eq_zero_or_pos i.natAbs with hzero | hpos
  · exact ⟨0, -1074, ⟨by norm_num, le_rfl, .inl rfl⟩, by norm_num, by simp [hzero]⟩
  rcases hle.lt_or_eq with hlt | heq
  · -- The mantissa is filled up with zeros.
    obtain ⟨d, hd⟩ : ∃ d, i.natAbs.log2 + d = 52 :=
      Nat.exists_eq_add_of_le' (Nat.le_of_lt_succ ((Nat.log2_lt hpos.ne').mpr hlt)) |>.imp
        fun d h => by omega
    have hlo := Nat.mul_le_mul_right (2 ^ d) (Nat.log2_self_le hpos.ne')
    have hhi := Nat.mul_lt_mul_of_pos_right (Nat.lt_log2_self (n := i.natAbs)) (Nat.two_pow_pos d)
    rw [← pow_add, hd] at hlo
    rw [← pow_add, show i.natAbs.log2 + 1 + d = 53 by omega] at hhi
    refine ⟨i.natAbs * 2 ^ d, -d, ⟨hhi, by omega, .inr hlo⟩, by omega, ?_⟩
    rw [zpow_neg, zpow_natCast]
    push_cast
    rw [mul_assoc, mul_inv_cancel₀ (pow_ne_zero d two_ne_zero), mul_one]
  · refine ⟨2 ^ 52, 1, ⟨by norm_num, by norm_num, .inr le_rfl⟩, by norm_num, ?_⟩
    rw [heq]
    norm_num

theorem value?_ofInt {i : ℤ} (hi : |i| ≤ 2 ^ 53) : value? (Double.ofInt i) = some (i : ℚ) := by
  rw [ofInt_eq_rounded]
  exact (representable_intCast hi).value_eq

theorem rounded_nonpos {q : ℚ} (hq : q ≤ 0) : rounded q ≤ 0 := by
  have hzero : value? (0 : Float) = some 0 := by decide +kernel
  rcases hq.lt_or_eq with hneg | rfl
  · have hsign : rounded q = ofMagnitude true (bitsOf |q|) := by
      rw [rounded, decide_eq_true hneg]
    rcases (bitsOf_le |q|).lt_or_eq with hlt | heq
    · obtain ⟨m, e, hcanonical, he, hbits⟩ := exists_canonicalBits hlt
      have hvalue := value?_of_reading (reading_ofMagnitude (s := true) hcanonical he)
      rw [hsign, ← hbits, le_iff_of_value hvalue hzero, exactValue_eq]
      exact neg_nonpos.mpr (mul_nonneg (Nat.cast_nonneg m) (zpow_nonneg two_pos.le e))
    · rw [hsign, heq, ← infinity_eq]
      decide +kernel
  · have hvalue := (representable_intCast (i := 0) (by norm_num)).value_eq
    rw [Int.cast_zero] at hvalue
    exact (le_iff_of_value hvalue hzero).mpr le_rfl

/-! ### Proper fractions -/

theorem ofInt_div_ofInt {a c : ℕ} (hac : a < c) (hc : c ≤ 2 ^ 53) :
    Double.ofInt a / Double.ofInt c = rounded (a / c) := by
  have hpos : (0 : ℚ) < c := Nat.cast_pos.mpr (Nat.zero_lt_of_lt hac)
  have hquotient := div_rounded (representable_intCast (i := a) (by simp; omega))
    (representable_intCast (i := c) (by simp; omega)) (by simp) (by simpa using hpos)
  rw [ofInt_eq_rounded, ofInt_eq_rounded]
  exact hquotient

/-- Rounding keeps fractions of one denominator apart, as they are further apart than the greatest
unit. -/
theorem value_fraction_lt {a b c : ℕ} (hab : a < b) (hbc : b < c) (hc : c < 2 ^ 53) :
    ∃ u v, value? (rounded (a / c)) = some u ∧ value? (rounded (b / c)) = some v ∧ u < v := by
  have hpos : (0 : ℚ) < c := Nat.cast_pos.mpr (Nat.zero_lt_of_lt hbc)
  have hbelow : ∀ k : ℕ, k < c → (0 : ℚ) ≤ k / c ∧ (k / c : ℚ) < 1 := fun k hk =>
    ⟨div_nonneg (Nat.cast_nonneg k) hpos.le, (div_lt_one hpos).mpr (Nat.cast_lt.mpr hk)⟩
  obtain ⟨u, hu, hnear⟩ := exists_value_rounded_near (hbelow a (hab.trans hbc)).1
    (hbelow a (hab.trans hbc)).2
  obtain ⟨v, hv, hnear'⟩ := exists_value_rounded_near (hbelow b hbc).1 (hbelow b hbc).2
  have hgap : (a / c : ℚ) + 1 / 2 ^ 53 < b / c := calc
    (a / c : ℚ) + 1 / 2 ^ 53 < a / c + 1 / c := by
      have hstep : (1 / 2 ^ 53 : ℚ) < 1 / c :=
        one_div_lt_one_div_of_lt hpos (by exact_mod_cast hc)
      linarith
    _ = (a + 1 : ℕ) / c := by rw [Nat.cast_add, Nat.cast_one, add_div]
    _ ≤ b / c := div_le_div_of_nonneg_right (Nat.cast_le.mpr hab) hpos.le
  rw [abs_le] at hnear hnear'
  norm_num at hnear hnear' hgap
  exact ⟨u, v, hu, hv, by linarith [hnear.2, hnear'.1]⟩

theorem sortsBefore_iff_of_value {x y : Float} {u v : ℚ} (hx : value? x = some u)
    (hy : value? y = some v) : sortsBefore x y = true ↔ u ≤ v := by
  have hself : (y == y) = true := (beq_iff_of_value hy hy).mpr rfl
  rw [sortsBefore, isUndefined, hself, Bool.not_true, Bool.false_or, decide_eq_true_iff]
  exact le_iff_of_value hx hy

theorem sortsBefore_fraction {a b c : ℕ} (hac : a < c) (hbc : b < c) (hc : c < 2 ^ 53) :
    sortsBefore (rounded (a / c)) (rounded (b / c)) = true ↔ a ≤ b := by
  rcases lt_trichotomy a b with hlt | rfl | hgt
  · obtain ⟨u, v, hu, hv, huv⟩ := value_fraction_lt hlt hbc hc
    rw [sortsBefore_iff_of_value hu hv]
    exact iff_of_true huv.le hlt.le
  · have hpos : (0 : ℚ) < c := Nat.cast_pos.mpr (Nat.zero_lt_of_lt hac)
    obtain ⟨v, hv, -⟩ := exists_value_rounded_near (div_nonneg (Nat.cast_nonneg a) hpos.le)
      ((div_lt_one hpos).mpr (Nat.cast_lt.mpr hac))
    rw [sortsBefore_iff_of_value hv hv]
    exact iff_of_true le_rfl le_rfl
  · obtain ⟨v, u, hv, hu, hvu⟩ := value_fraction_lt hgt hac hc
    rw [sortsBefore_iff_of_value hu hv]
    exact iff_of_false hvu.not_ge hgt.not_ge

end Double

open Double in
instance : CountsTo Float (2 ^ 53) where
  ofInt_zero := by decide +kernel
  ofInt_one := by decide +kernel
  add a b ha hb := by
    have hsum := add_rounded (representable_intCast (by exact_mod_cast ha))
      (representable_intCast (by exact_mod_cast hb))
    show Double.ofInt a + Double.ofInt b = Double.ofInt (a + b)
    rw [ofInt_eq_rounded, ofInt_eq_rounded, ofInt_eq_rounded, Int.cast_add, hsum]
  sub a b ha hb := by
    have hdiff := sub_rounded (representable_intCast (by exact_mod_cast ha))
      (representable_intCast (by exact_mod_cast hb))
    show Double.ofInt a - Double.ofInt b = Double.ofInt (a - b)
    rw [ofInt_eq_rounded, ofInt_eq_rounded, ofInt_eq_rounded, Int.cast_sub, hdiff]
  neg a ha0 ha := by
    have hneg := neg_rounded (representable_intCast (by exact_mod_cast ha))
      (Int.cast_ne_zero.mpr ha0)
    show -Double.ofInt a = Double.ofInt (-a)
    rw [ofInt_eq_rounded, ofInt_eq_rounded, Int.cast_neg, hneg]
  mul a b ha hb := by
    have hproduct := mul_rounded (representable_intCast (i := a) (by simpa using ha))
      (representable_intCast (i := b) (by simpa using hb)) (by simp) (by simp)
    show Double.ofInt a * Double.ofInt b = Double.ofInt (a * b)
    rw [ofInt_eq_rounded, ofInt_eq_rounded, ofInt_eq_rounded, Int.cast_mul, hproduct]
  le_iff a b ha hb := by
    have hle := le_iff_of_value (value?_ofInt (by exact_mod_cast ha))
      (value?_ofInt (by exact_mod_cast hb))
    exact hle.trans Int.cast_le
  lt_iff a b ha hb := by
    have hlt := lt_iff_of_value (value?_ofInt (by exact_mod_cast ha))
      (value?_ofInt (by exact_mod_cast hb))
    exact hlt.trans Int.cast_lt
  beq_iff a b ha hb := by
    have hbeq := beq_iff_of_value (value?_ofInt (by exact_mod_cast ha))
      (value?_ofInt (by exact_mod_cast hb))
    exact hbeq.trans Int.cast_inj
  truncate_ofInt a ha :=
    (truncate_of_value (value?_ofInt (by exact_mod_cast ha))).trans
      (congrArg Except.ok (towardZero_intCast a))
  nonpos a ha := by
    show Double.ofInt a ≤ 0
    rw [ofInt_eq_rounded]
    exact rounded_nonpos (Int.cast_nonpos.mpr ha)
  fraction a b hab hb := by
    have hpos : (0 : ℚ) < b := Nat.cast_pos.mpr (Nat.zero_lt_of_lt hab)
    have hle : (a / b : ℚ) ≤ 1 := (div_le_one hpos).mpr (Nat.cast_le.mpr hab.le)
    obtain ⟨v, hv, hv0, hv1⟩ := exists_value_rounded (div_nonneg (Nat.cast_nonneg a) hpos.le) hle
      ⟨2 ^ 52, -52, ⟨by norm_num, by norm_num, .inr le_rfl⟩, by norm_num, by norm_num⟩
    show (0 : Float) ≤ Double.ofInt a / Double.ofInt b ∧ Double.ofInt a / Double.ofInt b ≤ 1
    rw [ofInt_div_ofInt hab hb]
    have hzero : value? (0 : Float) = some 0 := by decide +kernel
    have hone : value? (1 : Float) = some 1 := by decide +kernel
    exact ⟨(le_iff_of_value hzero hv).mpr hv0, (le_iff_of_value hv hone).mpr hv1⟩

open Double in
instance : SortsFractions Float (2 ^ 53) where
  fraction_sorts a b c hac hbc hc := by
    show sortsBefore (Double.ofInt a / Double.ofInt c) (Double.ofInt b / Double.ofInt c) = true ↔ _
    rw [ofInt_div_ofInt hac hc.le, ofInt_div_ofInt hbc hc.le]
    exact sortsBefore_fraction hac hbc hc

end CityTour
