import Mathlib
import CityTour.Graph.Label
import CityTour.Proofs.Scalar

/-! Doubles and their exact values.  `reading` takes a double apart as the operations on doubles do
(`reading_eq`), so that it tells the finite ones from infinities and from what is no number.  The
integer part of a finite double is that of its exact value (`truncate_of_value`). -/

namespace CityTour.Double

open Float.Model Float.Model.UnpackedFloat

/-- Whether a sign is that of a negative number. -/
def isNegative : Sign → Bool
  | .negative => true
  | .positive => false

/-- What an unpacked double stands for. -/
def ofUnpacked : UnpackedFloat → Reading
  | .notANumber => .undefined
  | .infinity s => .infinite (isNegative s)
  | .zero s => .finite (isNegative s) 0 (-1074)
  | .finite s m e _ => .finite (isNegative s) m e

theorem toNat_unpackExponent (b : BitVec Format.binary64.numBits) :
    (unpackExponent b).toNat = b.toNat / 2 ^ 52 % 2 ^ 11 := by
  simp [unpackExponent, BitVec.extractLsb_toNat, Nat.shiftRight_eq_div_pow]

theorem toNat_unpackMantissa (b : BitVec Format.binary64.numBits) :
    (unpackMantissa b).toNat = b.toNat % 2 ^ 52 := by
  simp [unpackMantissa, BitVec.extractLsb_toNat]

theorem isNegative_unpackSign (b : BitVec Format.binary64.numBits) :
    isNegative (.ofBitVec (unpackSign b)) = (b.toNat / 2 ^ 63 % 2 == 1) := by
  have h : (unpackSign b).toNat = b.toNat / 2 ^ 63 % 2 := by
    simp [unpackSign, BitVec.extractLsb_toNat, Nat.shiftRight_eq_div_pow]
  rw [← h, Sign.ofBitVec]
  generalize unpackSign b = sign
  revert sign
  decide

theorem toNat_implicit_append (v : BitVec 52) : (1#1 ++ v).toNat = 2 ^ 52 + v.toNat := by
  rw [BitVec.toNat_append, ← Nat.shiftLeft_add_eq_or_of_lt v.isLt, Nat.shiftLeft_eq]
  simp

theorem readingOfBits_eq (b : BitVec Format.binary64.numBits) :
    readingOfBits b.toNat = ofUnpacked (UnpackedFloat.unpack Format.binary64 b) := by
  have he := toNat_unpackExponent b
  have hm := toNat_unpackMantissa b
  have hfull : unpackExponent b = -1#_ ↔ b.toNat / 2 ^ 52 % 2 ^ 11 = 2047 := by
    rw [← BitVec.toNat_inj, he]
    rfl
  have hzero : unpackExponent b = 0#_ ↔ b.toNat / 2 ^ 52 % 2 ^ 11 = 0 := by
    rw [← BitVec.toNat_inj, he]
    rfl
  have hmantissa : unpackMantissa b = 0#_ ↔ b.toNat % 2 ^ 52 = 0 := by
    rw [← BitVec.toNat_inj, hm]
    rfl
  have hbias : (Format.binary64.exponentBias : ℤ) + Format.binary64.mantissaBitsWithoutImplicit =
      1075 := by
    decide
  simp only [readingOfBits, Nat.pow_eq, UnpackedFloat.unpack]
  by_cases h1 : b.toNat / 2 ^ 52 % 2 ^ 11 = 2047
  · rw [if_pos h1, if_pos (hfull.mpr h1)]
    by_cases h2 : b.toNat % 2 ^ 52 = 0
    · rw [if_pos h2, if_pos (hmantissa.mpr h2), ofUnpacked, isNegative_unpackSign]
    · rw [if_neg h2, if_neg (mt hmantissa.mp h2), ofUnpacked]
  · rw [if_neg h1, if_neg (mt hfull.mp h1)]
    by_cases h2 : b.toNat / 2 ^ 52 % 2 ^ 11 = 0
    · rw [if_pos h2, if_pos (hzero.mpr h2)]
      by_cases h3 : b.toNat % 2 ^ 52 = 0
      · rw [dif_pos (hmantissa.mpr h3), ofUnpacked, isNegative_unpackSign, h3]
      · rw [dif_neg (mt hmantissa.mp h3), ofUnpacked, isNegative_unpackSign, hm, he, h2, hbias]
        rfl
    · rw [if_neg h2, if_neg (mt hzero.mp h2), ofUnpacked, isNegative_unpackSign,
        toNat_implicit_append, hm, he, hbias]

/-- A double stands for what its bits unpack to. -/
theorem reading_eq (x : Float) : reading x = ofUnpacked x.toModel.unpack :=
  readingOfBits_eq x.toModel.toBits.toBitVec

/-! ### Exact values -/

/-- The exact value of a finite double. -/
def value? (x : Float) : Option ℚ :=
  match reading x with
  | .finite negative mantissa exponent => some (Label.exactValue negative mantissa exponent)
  | .undefined | .infinite _ => none

theorem isNaN_iff (x : Float) : x.isNaN = true ↔ reading x = .undefined := by
  rw [reading_eq]
  show x.toModel.unpack.isNaN = true ↔ _
  cases x.toModel.unpack <;> simp [UnpackedFloat.isNaN, ofUnpacked]

theorem isFinite_iff (x : Float) : x.isFinite = true ↔ ∃ q, value? x = some q := by
  rw [value?, reading_eq]
  show x.toModel.unpack.isFinite = true ↔ _
  cases x.toModel.unpack <;> simp [UnpackedFloat.isFinite, ofUnpacked]

theorem value?_of_reading {x : Float} {s : Bool} {m : ℕ} {e : ℤ} (h : reading x = .finite s m e) :
    value? x = some (Label.exactValue s m e) := by
  rw [value?, h]

theorem exists_reading_of_value {x : Float} {q : ℚ} (h : value? x = some q) :
    ∃ s m e, reading x = .finite s m e ∧ Label.exactValue s m e = q := by
  unfold value? at h
  split at h
  · rename_i s m e hreading
    exact ⟨s, m, e, hreading, Option.some.inj h⟩
  · cases h
  · cases h

/-- A double that is not finite has no integer part. -/
theorem truncate_of_not_isFinite {x : Float} (h : ¬ x.isFinite = true) : truncate x =
    .error (if x.isNaN then .undefinedNumber else .unboundedNumber) := by
  unfold truncate
  cases hreading : reading x with
  | undefined => rw [if_pos ((isNaN_iff x).mpr hreading)]
  | infinite s =>
    have hnan : ¬ x.isNaN = true := by
      rw [isNaN_iff, hreading]
      exact Reading.noConfusion
    rw [if_neg hnan]
  | finite s m e => exact absurd ((isFinite_iff x).mpr ⟨_, value?_of_reading hreading⟩) h

/-- The integer part of a number, toward zero. -/
def towardZero (q : ℚ) : ℤ := if 0 ≤ q then ⌊q⌋ else ⌈q⌉

theorem towardZero_of_nonneg {q : ℚ} (h : 0 ≤ q) : towardZero q = ⌊q⌋ := if_pos h

theorem towardZero_neg {q : ℚ} (h : 0 ≤ q) : towardZero (-q) = -⌊q⌋ := by
  unfold towardZero
  split
  · have hzero : q = 0 := by linarith
    simp [hzero]
  · exact Int.ceil_neg

theorem towardZero_intCast (i : ℤ) : towardZero i = i := by
  rw [towardZero, Int.floor_intCast, Int.ceil_intCast, ite_self]

theorem truncation_eq (s : Bool) (m : ℕ) (e : ℤ) :
    truncation s m e = towardZero (Label.exactValue s m e) := by
  -- Both sides are those of a magnitude, up to the sign.
  have hmagnitude : ∃ (whole : ℕ) (q : ℚ), 0 ≤ q ∧ ⌊q⌋ = (whole : ℤ) ∧
      truncation s m e = (if s then -(whole : ℤ) else whole) ∧
      Label.exactValue s m e = if s then -q else q := by
    by_cases he : e < 0
    · refine ⟨m / 2 ^ (-e).toNat, mkRat m (2 ^ (-e).toNat), ?_, ?_, ?_, ?_⟩
      · rw [Rat.mkRat_eq_div]
        positivity
      · rw [Rat.mkRat_eq_div]
        exact_mod_cast Rat.floor_intCast_div_natCast m (2 ^ (-e).toNat)
      · simp only [truncation, Nat.pow_eq, if_pos he]
      · simp only [Label.exactValue, Nat.pow_eq, if_pos he]
    · refine ⟨m * 2 ^ e.toNat, (m * 2 ^ e.toNat : ℕ), Nat.cast_nonneg _, Int.floor_natCast _, ?_,
        ?_⟩
      · simp only [truncation, Nat.pow_eq, if_neg he]
      · simp only [Label.exactValue, Nat.pow_eq, if_neg he]
  obtain ⟨whole, q, hq, hfloor, htruncation, hvalue⟩ := hmagnitude
  rw [htruncation, hvalue, ← hfloor]
  cases s with
  | false => exact (towardZero_of_nonneg hq).symm
  | true => exact (towardZero_neg hq).symm

/-- The integer part of a finite double is that of its exact value. -/
theorem truncate_of_value {x : Float} {q : ℚ} (h : value? x = some q) :
    truncate x = .ok (towardZero q) := by
  obtain ⟨s, m, e, hreading, rfl⟩ := exists_reading_of_value h
  rw [truncate, hreading, ← truncation_eq]

end CityTour.Double
