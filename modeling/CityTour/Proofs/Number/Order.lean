import Mathlib
import CityTour.Proofs.Number.Bits

/-! The order of doubles.  Doubles compare by exponent first and then by mantissa, which is the
order of their values as both are canonical: finite doubles compare as their values do.  Doubles
that are read alike are the same (`reading_injective`), and each but one equals itself. -/

namespace CityTour.Double

open Float.Model Float.Model.UnpackedFloat

/-- The sign of a number that is negative or not. -/
def signOf (negative : Bool) : Sign := if negative then .negative else .positive

@[simp] theorem signOf_true : signOf true = .negative := rfl

@[simp] theorem signOf_false : signOf false = .positive := rfl

theorem signOf_isNegative (s : Sign) : signOf (isNegative s) = s := by
  cases s <;> rfl

variable {s t : Bool} {m k : ℕ} {e f : ℤ} {x y : Float} {a b : ℚ}

/-- A finite double unpacks to a zero or to its sign, mantissa and exponent. -/
theorem unpack_of_reading (h : reading x = .finite s m e) :
    m = 0 ∧ x.toModel.unpack = .zero (signOf s) ∨
      ∃ hm : 0 < m, x.toModel.unpack = .finite (signOf s) m e hm := by
  rw [reading_eq] at h
  cases hunpack : x.toModel.unpack with
  | notANumber | infinity r =>
    rw [hunpack] at h
    cases h
  | zero r =>
    rw [hunpack] at h
    cases h
    exact .inl ⟨rfl, by rw [signOf_isNegative]⟩
  | finite r m' e' hm =>
    rw [hunpack] at h
    cases h
    exact .inr ⟨hm, by rw [signOf_isNegative]⟩

theorem unpack_of_undefined (h : reading x = .undefined) : x.toModel.unpack = .notANumber := by
  rw [reading_eq] at h
  cases hunpack : x.toModel.unpack with
  | notANumber => rfl
  | infinity r | zero r | finite r m e hm =>
    rw [hunpack] at h
    cases h

theorem unpack_of_infinite (h : reading x = .infinite s) :
    x.toModel.unpack = .infinity (signOf s) := by
  rw [reading_eq] at h
  cases hunpack : x.toModel.unpack with
  | infinity r =>
    rw [hunpack] at h
    cases h
    rw [signOf_isNegative]
  | notANumber | zero r | finite r m e hm =>
    rw [hunpack] at h
    cases h

theorem ofModel_pack_unpack (x : Float) : Float.ofModel (Float.Model.pack x.toModel.unpack) = x :=
  Float.ofBits_toBits x

/-- Doubles that stand for the same are the same; only one double is no number. -/
theorem reading_injective (h : reading x = reading y) : x = y := by
  cases hx : reading x with
  | undefined =>
    rw [← ofModel_pack_unpack x, ← ofModel_pack_unpack y, unpack_of_undefined hx,
      unpack_of_undefined (h.symm.trans hx)]
  | infinite s =>
    rw [← ofModel_pack_unpack x, ← ofModel_pack_unpack y, unpack_of_infinite hx,
      unpack_of_infinite (h.symm.trans hx)]
  | finite s m e => exact (bitsOf_of_reading hx).trans (bitsOf_of_reading (h.symm.trans hx)).symm

theorem Canonical.lt_of_exponent_lt (h : Canonical m e) (h' : Canonical k f) (hlt : e < f) :
    (m * 2 ^ e : ℚ) < k * 2 ^ f := by
  have hmin := h.le_exponent
  have hk : 2 ^ 52 ≤ k := h'.normal.resolve_left (by omega)
  calc (m * 2 ^ e : ℚ) < 2 ^ 53 * 2 ^ e :=
        mul_lt_mul_of_pos_right (by exact_mod_cast h.mantissa_lt) (zpow_pos two_pos e)
    _ = 2 ^ 52 * 2 ^ (e + 1) := by rw [zpow_add₀ two_ne_zero]; ring
    _ ≤ 2 ^ 52 * 2 ^ f :=
        mul_le_mul_of_nonneg_left (zpow_le_zpow_right₀ one_le_two (by omega)) (by norm_num)
    _ ≤ k * 2 ^ f := mul_le_mul_of_nonneg_right (by exact_mod_cast hk) (zpow_nonneg two_pos.le f)

/-- Canonical magnitudes compare by exponent and then by mantissa. -/
theorem compare_canonical (h : Canonical m e) (h' : Canonical k f) :
    (compare e f).then (compare m k) = compare (m * 2 ^ e : ℚ) (k * 2 ^ f) := by
  rcases lt_trichotomy e f with hlt | rfl | hgt
  · rw [compare_lt_iff_lt.mpr hlt, compare_lt_iff_lt.mpr (h.lt_of_exponent_lt h' hlt)]
    rfl
  · have hpow : (0 : ℚ) < 2 ^ e := zpow_pos two_pos e
    rw [compare_eq_iff_eq.mpr rfl]
    show compare m k = _
    rcases lt_trichotomy m k with hlt | rfl | hgt
    · rw [compare_lt_iff_lt.mpr hlt, compare_lt_iff_lt.mpr]
      exact mul_lt_mul_of_pos_right (by exact_mod_cast hlt) hpow
    · rw [compare_eq_iff_eq.mpr rfl, compare_eq_iff_eq.mpr rfl]
    · rw [compare_gt_iff_gt.mpr hgt, compare_gt_iff_gt.mpr]
      exact mul_lt_mul_of_pos_right (by exact_mod_cast hgt) hpow
  · rw [compare_gt_iff_gt.mpr hgt, compare_gt_iff_gt.mpr (h'.lt_of_exponent_lt h hgt)]
    rfl

theorem compare_neg (a b : ℚ) : compare (-a) (-b) = (compare a b).swap := by
  rcases lt_trichotomy a b with hlt | rfl | hgt
  · rw [compare_lt_iff_lt.mpr hlt, compare_gt_iff_gt.mpr (neg_lt_neg hlt)]
    rfl
  · rw [compare_eq_iff_eq.mpr rfl, compare_eq_iff_eq.mpr rfl]
    rfl
  · rw [compare_gt_iff_gt.mpr hgt, compare_lt_iff_lt.mpr (neg_lt_neg hgt)]
    rfl

theorem exactValue_pos (hm : 0 < m) : 0 < Label.exactValue false m e := by
  rw [exactValue_eq]
  exact mul_pos (Nat.cast_pos.mpr hm) (zpow_pos two_pos e)

theorem exactValue_neg (hm : 0 < m) : Label.exactValue true m e < 0 := by
  rw [exactValue_eq]
  exact neg_neg_of_pos (mul_pos (Nat.cast_pos.mpr hm) (zpow_pos two_pos e))

theorem exactValue_zero (s : Bool) (e : ℤ) : Label.exactValue s 0 e = 0 := by
  rw [exactValue_eq]
  simp

/-- Finite doubles compare as their values. -/
theorem compare_of_value (hx : value? x = some a) (hy : value? y = some b) :
    x.toModel.unpack.compare y.toModel.unpack = some (compare a b) := by
  obtain ⟨s, m, e, hxr, rfl⟩ := exists_reading_of_value hx
  obtain ⟨t, k, f, hyr, rfl⟩ := exists_reading_of_value hy
  have hxc := (canonical_of_reading hxr).1
  have hyc := (canonical_of_reading hyr).1
  rcases unpack_of_reading hxr with ⟨rfl, hux⟩ | ⟨hm, hux⟩
  · rw [hux, exactValue_zero]
    rcases unpack_of_reading hyr with ⟨rfl, huy⟩ | ⟨hk, huy⟩
    · rw [huy, exactValue_zero, compare_eq_iff_eq.mpr rfl]
      rfl
    · rw [huy]
      cases t with
      | false => rw [compare_lt_iff_lt.mpr (exactValue_pos hk)]; rfl
      | true => rw [compare_gt_iff_gt.mpr (exactValue_neg hk)]; rfl
  · rw [hux]
    rcases unpack_of_reading hyr with ⟨rfl, huy⟩ | ⟨hk, huy⟩
    · rw [huy, exactValue_zero]
      cases s with
      | false => rw [compare_gt_iff_gt.mpr (exactValue_pos hm)]; rfl
      | true => rw [compare_lt_iff_lt.mpr (exactValue_neg hm)]; rfl
    · rw [huy]
      cases s with
      | false =>
        cases t with
        | false =>
          rw [exactValue_eq, exactValue_eq]
          exact congrArg some (compare_canonical hxc hyc)
        | true =>
          rw [compare_gt_iff_gt.mpr ((exactValue_neg hk).trans (exactValue_pos hm))]
          rfl
      | true =>
        cases t with
        | false =>
          rw [compare_lt_iff_lt.mpr ((exactValue_neg hm).trans (exactValue_pos hk))]
          rfl
        | true =>
          rw [exactValue_eq, exactValue_eq]
          show some ((compare e f).then (compare m k)).swap = _
          rw [compare_canonical hxc hyc, ← compare_neg]
          rfl

section Compare

variable {β : Type} [LinearOrder β] {c d : β}
  (h : x.toModel.unpack.compare y.toModel.unpack = some (compare c d))

include h

theorem le_iff_of_compare : x ≤ y ↔ c ≤ d := by
  have hle : x ≤ y ↔ x.toModel.unpack.le y.toModel.unpack = true := decide_eq_true_iff
  rw [hle, UnpackedFloat.le, h, ← compare_le_iff_le]
  cases compare c d <;> simp

theorem lt_iff_of_compare : x < y ↔ c < d := by
  have hlt : x < y ↔ x.toModel.unpack.lt y.toModel.unpack = true := decide_eq_true_iff
  rw [hlt, UnpackedFloat.lt, h, ← compare_lt_iff_lt]
  cases compare c d <;> simp

theorem beq_iff_of_compare : (x == y) = true ↔ c = d := by
  have hbeq : (x == y) = true ↔ x.toModel.unpack.beq y.toModel.unpack = true := Iff.rfl
  rw [hbeq, UnpackedFloat.beq, h, ← compare_eq_iff_eq (a := c)]
  cases compare c d <;> simp

end Compare

theorem le_iff_of_value (hx : value? x = some a) (hy : value? y = some b) : x ≤ y ↔ a ≤ b :=
  le_iff_of_compare (compare_of_value hx hy)

theorem lt_iff_of_value (hx : value? x = some a) (hy : value? y = some b) : x < y ↔ a < b :=
  lt_iff_of_compare (compare_of_value hx hy)

theorem beq_iff_of_value (hx : value? x = some a) (hy : value? y = some b) :
    (x == y) = true ↔ a = b :=
  beq_iff_of_compare (compare_of_value hx hy)

theorem beq_of_undefined (h : reading x = .undefined) (y : Float) : (x == y) = false := by
  have hbeq : (x == y) = x.toModel.unpack.beq y.toModel.unpack := rfl
  rw [hbeq, unpack_of_undefined h]
  rfl

/-- A double equals itself exactly if it is a number or infinite. -/
theorem beq_self_iff (x : Float) : (x == x) = true ↔ reading x ≠ .undefined := by
  cases hx : reading x with
  | undefined => simp [beq_of_undefined hx]
  | infinite s =>
    have hbeq : (x == x) = x.toModel.unpack.beq x.toModel.unpack := rfl
    rw [hbeq, unpack_of_infinite hx]
    exact iff_of_true (by cases s <;> rfl) nofun
  | finite s m e =>
    have hvalue := value?_of_reading hx
    simp [beq_iff_of_value hvalue hvalue]

end CityTour.Double
