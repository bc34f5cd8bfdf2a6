import Mathlib
import CityTour.Scalar

/-! What is assumed of numbers where it matters.  Numbers that count compute with the integers up to
a bound exactly; rational numbers do so without end, as no sum of theirs is rounded, every two of
them compare, and every integer is its own number. -/

namespace CityTour

namespace Scalar

instance rational : Scalar ℚ where
  ofInt i := i
  truncate x := .ok (if 0 ≤ x then ⌊x⌋ else ⌈x⌉)
  decideLE := inferInstance
  decideLT := inferInstance

@[simp] theorem ofInt_rational (i : ℤ) : (ofInt i : ℚ) = i := rfl

@[simp] theorem truncate_intCast (i : ℤ) : truncate (i : ℚ) = .ok i := by
  simp [truncate]

@[simp] theorem magnitude_rational (x : ℚ) : magnitude x = |x| := by
  rw [magnitude]
  split
  · rename_i h
    exact (abs_of_neg h).symm
  · rename_i h
    exact (abs_of_nonneg (not_lt.mp h)).symm

@[simp] theorem isUndefined_rational (x : ℚ) : isUndefined x = false := by
  simp [isUndefined]

end Scalar

open Scalar

/-- Numbers that tell one from zero. -/
class Scalar.UnitsApart (α : Type) [Scalar α] : Prop where
  one_beq_one : ((1 : α) == 1) = true
  zero_beq_one : ((0 : α) == 1) = false

instance : Scalar.UnitsApart ℚ := ⟨rfl, rfl⟩

/-- Numbers that sorting puts in a total order, up to ties. -/
class Scalar.SortsTotally (α : Type) [Scalar α] : Prop where
  trans : ∀ a b c : α, sortsBefore a b → sortsBefore b c → sortsBefore a c
  total : ∀ a b : α, sortsBefore a b || sortsBefore b a

instance : Scalar.SortsTotally ℚ where
  trans a b c := by simpa [Scalar.sortsBefore] using le_trans
  total a b := by simpa [Scalar.sortsBefore] using le_total a b

/-- Numbers that count up to `m` in either direction: sums, differences and products of integers
are those integers, they compare as integers do, and a proper fraction is between zero and one. -/
class Scalar.CountsTo (α : Type) [Scalar α] (m : ℕ) : Prop where
  ofInt_zero : (ofInt 0 : α) = 0
  ofInt_one : (ofInt 1 : α) = 1
  add : ∀ a b : ℤ, |a| ≤ m → |b| ≤ m → (ofInt a + ofInt b : α) = ofInt (a + b)
  sub : ∀ a b : ℤ, |a| ≤ m → |b| ≤ m → (ofInt a - ofInt b : α) = ofInt (a - b)
  neg : ∀ a : ℤ, a ≠ 0 → |a| ≤ m → (-ofInt a : α) = ofInt (-a)
  mul : ∀ a b : ℕ, a ≤ m → b ≤ m → (ofInt a * ofInt b : α) = ofInt (a * b)
  le_iff : ∀ a b : ℤ, |a| ≤ m → |b| ≤ m → ((ofInt a : α) ≤ ofInt b ↔ a ≤ b)
  lt_iff : ∀ a b : ℤ, |a| ≤ m → |b| ≤ m → ((ofInt a : α) < ofInt b ↔ a < b)
  beq_iff : ∀ a b : ℤ, |a| ≤ m → |b| ≤ m → (((ofInt a : α) == ofInt b) = true ↔ a = b)
  truncate_ofInt : ∀ a : ℤ, |a| ≤ m → truncate (ofInt a : α) = .ok a
  nonpos : ∀ a : ℤ, a ≤ 0 → (ofInt a : α) ≤ 0
  fraction : ∀ a b : ℕ, a < b → b ≤ m → (0 : α) ≤ ofInt a / ofInt b ∧ (ofInt a / ofInt b : α) ≤ 1

instance (m : ℕ) : CountsTo ℚ m where
  ofInt_zero := by simp
  ofInt_one := by simp
  add a b _ _ := by simp
  sub a b _ _ := by simp
  neg a _ _ := by simp
  mul a b _ _ := by simp
  le_iff a b _ _ := by simp
  lt_iff a b _ _ := by simp
  beq_iff a b _ _ := by simp
  truncate_ofInt a _ := by simp
  nonpos a ha := by simpa using ha
  fraction a b hab _ := by
    have hpos : (0 : ℚ) < b := Nat.cast_pos.mpr (Nat.zero_lt_of_lt hab)
    have hle : (a : ℚ) ≤ b := Nat.cast_le.mpr hab.le
    simp only [ofInt_rational, Int.cast_natCast]
    exact ⟨div_nonneg (Nat.cast_nonneg a) hpos.le, (div_le_one hpos).mpr hle⟩

/-- Numbers whose proper fractions of one denominator below `m` sort as their numerators do. -/
class Scalar.SortsFractions (α : Type) [Scalar α] (m : ℕ) : Prop extends CountsTo α m where
  fraction_sorts : ∀ a b c : ℕ, a < c → b < c → c < m →
    (sortsBefore (ofInt a / ofInt c : α) (ofInt b / ofInt c) = true ↔ a ≤ b)

instance (m : ℕ) : SortsFractions ℚ m where
  fraction_sorts a b c hac _ _ := by
    have hpos : (0 : ℚ) < c := Nat.cast_pos.mpr (Nat.zero_lt_of_lt hac)
    simp [sortsBefore, div_le_div_iff_of_pos_right hpos]

namespace Scalar.CountsTo

variable {α : Type} [Scalar α]

/-- Numbers that count tell one from zero. -/
theorem unitsApart (m : ℕ) [CountsTo α m] (hm : 0 < m) : UnitsApart α := by
  have hone : |(1 : ℤ)| ≤ m := by
    rw [abs_one]
    exact_mod_cast hm
  have hzero : |(0 : ℤ)| ≤ m := by simp
  refine ⟨?_, Bool.eq_false_iff.mpr ?_⟩
  · rw [← CountsTo.ofInt_one m]
    exact (CountsTo.beq_iff (m := m) 1 1 hone hone).mpr rfl
  · rw [← CountsTo.ofInt_one m, ← CountsTo.ofInt_zero m]
    exact mt (CountsTo.beq_iff (m := m) 0 1 hzero hone).mp zero_ne_one

end Scalar.CountsTo

end CityTour
