import Mathlib
import CityTour.Proofs.Number.Order

/-! The order in which doubles are sorted.  No comparison holds of what is no number, so sorting
places it after everything else, where it ties with itself; the finite doubles stand between the
infinite ones by their values.  So every double has a place in one linear order
(`sortsBefore_iff`), and zeros of both signs share theirs. -/

namespace CityTour.Double

open Float.Model Scalar

/-- Sorting puts one double before another: it is less, or only the other is undefined. -/
def Precedes (x y : Float) : Prop := x < y ∨ ¬ x.isNaN ∧ y.isNaN

/-- Sorting does not tell two doubles apart: they are equal, or both are undefined. -/
def Ties (x y : Float) : Prop := x == y ∨ x.isNaN ∧ y.isNaN

instance (x y : Float) : Decidable (Precedes x y) := inferInstanceAs (Decidable (_ ∨ _))

instance (x y : Float) : Decidable (Ties x y) := inferInstanceAs (Decidable (_ ∨ _))

/-- The place of a double in the order of sorting, by the kind of the double and then by value. -/
def place (x : Float) : ℕ ×ₗ ℚ :=
  match reading x with
  | .infinite true => toLex (0, 0)
  | .finite negative mantissa exponent =>
    toLex (1, Label.exactValue negative mantissa exponent)
  | .infinite false => toLex (2, 0)
  | .undefined => toLex (3, 0)

variable {s t : Bool} {m k : ℕ} {e f : ℤ} {x y : Float}

theorem place_of_infinite (h : reading x = .infinite s) :
    place x = toLex (if s then 0 else 2, 0) := by
  rw [place, h]
  cases s <;> rfl

theorem place_of_finite (h : reading x = .finite s m e) :
    place x = toLex (1, Label.exactValue s m e) := by
  rw [place, h]

theorem place_of_undefined (h : reading x = .undefined) : place x = toLex (3, 0) := by
  rw [place, h]

theorem place_lt (hx : reading x ≠ .undefined) (hy : reading y = .undefined) :
    place x < place y := by
  rw [place_of_undefined hy]
  cases h : reading x with
  | undefined => exact absurd h hx
  | infinite s =>
    rw [place_of_infinite h]
    cases s <;> decide +kernel
  | finite s m e =>
    rw [place_of_finite h]
    simp [Prod.Lex.toLex_lt_toLex]

theorem compare_infinite (hx : reading x = .infinite s) (hy : reading y = .infinite t) :
    x.toModel.unpack.compare y.toModel.unpack = some (compare (place x) (place y)) := by
  rw [unpack_of_infinite hx, unpack_of_infinite hy, place_of_infinite hx, place_of_infinite hy]
  cases s <;> cases t <;> decide +kernel

theorem compare_infinite_finite (hx : reading x = .infinite s) (hy : reading y = .finite t m e) :
    x.toModel.unpack.compare y.toModel.unpack = some (compare (place x) (place y)) := by
  have hcompare : compare (place x) (place y) = if s then .lt else .gt := by
    rw [place_of_infinite hx, place_of_finite hy]
    cases s with
    | false => exact compare_gt_iff_gt.mpr (by simp [Prod.Lex.toLex_lt_toLex])
    | true => exact compare_lt_iff_lt.mpr (by simp [Prod.Lex.toLex_lt_toLex])
  rw [hcompare, unpack_of_infinite hx]
  rcases unpack_of_reading hy with ⟨-, hunpack⟩ | ⟨hm, hunpack⟩ <;> rw [hunpack] <;> cases s <;> rfl

theorem compare_finite_infinite (hx : reading x = .finite s m e) (hy : reading y = .infinite t) :
    x.toModel.unpack.compare y.toModel.unpack = some (compare (place x) (place y)) := by
  have hcompare : compare (place x) (place y) = if t then .gt else .lt := by
    rw [place_of_finite hx, place_of_infinite hy]
    cases t with
    | false => exact compare_lt_iff_lt.mpr (by simp [Prod.Lex.toLex_lt_toLex])
    | true => exact compare_gt_iff_gt.mpr (by simp [Prod.Lex.toLex_lt_toLex])
  rw [hcompare, unpack_of_infinite hy]
  rcases unpack_of_reading hx with ⟨-, hunpack⟩ | ⟨hm, hunpack⟩ <;> rw [hunpack] <;> cases t <;> rfl

theorem compare_place (hx : reading x ≠ .undefined) (hy : reading y ≠ .undefined) :
    x.toModel.unpack.compare y.toModel.unpack = some (compare (place x) (place y)) := by
  cases hxr : reading x with
  | undefined => exact absurd hxr hx
  | infinite s =>
    cases hyr : reading y with
    | undefined => exact absurd hyr hy
    | infinite t => exact compare_infinite hxr hyr
    | finite t k f => exact compare_infinite_finite hxr hyr
  | finite s m e =>
    cases hyr : reading y with
    | undefined => exact absurd hyr hy
    | infinite t => exact compare_finite_infinite hxr hyr
    | finite t k f =>
      -- Places of one kind compare by value.
      have hmono : StrictMono fun q : ℚ => toLex ((1 : ℕ), q) := fun a b h =>
        Prod.Lex.toLex_lt_toLex.mpr (.inr ⟨rfl, h⟩)
      rw [compare_of_value (value?_of_reading hxr) (value?_of_reading hyr), place_of_finite hxr,
        place_of_finite hyr, ← cmp_eq_compare, ← cmp_eq_compare]
      exact congrArg some (hmono.cmp_map_eq _ _).symm

theorem incomparable_of_undefined (h : reading x = .undefined ∨ reading y = .undefined) :
    ¬ x ≤ y ∧ ¬ x < y ∧ ¬ x == y := by
  have hcompare : x.toModel.unpack.compare y.toModel.unpack = none := by
    rcases h with h | h
    · rw [unpack_of_undefined h]
      rfl
    · rw [unpack_of_undefined h]
      cases x.toModel.unpack <;> rfl
  have hle : x ≤ y ↔ x.toModel.unpack.le y.toModel.unpack = true := decide_eq_true_iff
  have hlt : x < y ↔ x.toModel.unpack.lt y.toModel.unpack = true := decide_eq_true_iff
  have hbeq : x == y ↔ x.toModel.unpack.beq y.toModel.unpack = true := Iff.rfl
  rw [hle, hlt, hbeq, UnpackedFloat.le, UnpackedFloat.lt, UnpackedFloat.beq, hcompare]
  decide

theorem le_iff_place_le (hx : reading x ≠ .undefined) (hy : reading y ≠ .undefined) :
    x ≤ y ↔ place x ≤ place y := le_iff_of_compare (compare_place hx hy)

theorem lt_iff_place_lt (hx : reading x ≠ .undefined) (hy : reading y ≠ .undefined) :
    x < y ↔ place x < place y := lt_iff_of_compare (compare_place hx hy)

theorem beq_symm (h : (x == y) = true) : (y == x) = true := by
  have hx : reading x ≠ .undefined := fun hx => (incomparable_of_undefined (.inl hx)).2.2 h
  have hy : reading y ≠ .undefined := fun hy => (incomparable_of_undefined (.inr hy)).2.2 h
  rw [beq_iff_of_compare (compare_place hx hy)] at h
  exact (beq_iff_of_compare (compare_place hy hx)).mpr h.symm

/-! ### Sorting by place -/

theorem place_le_of_undefined (h : reading y = .undefined) (x : Float) : place x ≤ place y := by
  by_cases hx : reading x = .undefined
  · rw [place_of_undefined hx, place_of_undefined h]
  · exact (place_lt hx h).le

theorem precedes_iff : Precedes x y ↔ place x < place y := by
  rw [Precedes, isNaN_iff, isNaN_iff]
  by_cases hx : reading x = .undefined
  · have hlt := (incomparable_of_undefined (y := y) (.inl hx)).2.1
    simp [hx, hlt, place_le_of_undefined hx y]
  · by_cases hy : reading y = .undefined
    · exact iff_of_true (.inr ⟨hx, hy⟩) (place_lt hx hy)
    · simp [hy, lt_iff_of_compare (compare_place hx hy)]

theorem ties_iff : Ties x y ↔ place x = place y := by
  rw [Ties, isNaN_iff, isNaN_iff]
  by_cases hx : reading x = .undefined
  · by_cases hy : reading y = .undefined
    · exact iff_of_true (.inr ⟨hx, hy⟩) ((place_of_undefined hx).trans (place_of_undefined hy).symm)
    · have hbeq := (incomparable_of_undefined (y := y) (.inl hx)).2.2
      simp [hy, hbeq, (place_lt hy hx).ne']
  · by_cases hy : reading y = .undefined
    · have hbeq := (incomparable_of_undefined (x := x) (.inr hy)).2.2
      simp [hx, hbeq, (place_lt hx hy).ne]
    · simp [hx, beq_iff_of_compare (compare_place hx hy)]

theorem sortsBefore_iff : sortsBefore x y ↔ place x ≤ place y := by
  have hundefined : isUndefined y ↔ reading y = .undefined := by
    rw [isUndefined, Bool.not_eq_true', ← Bool.not_eq_true, beq_self_iff, not_not]
  rw [sortsBefore, Bool.or_eq_true, decide_eq_true_iff, hundefined]
  by_cases hy : reading y = .undefined
  · exact iff_of_true (.inl hy) (place_le_of_undefined hy x)
  · by_cases hx : reading x = .undefined
    · have hle := (incomparable_of_undefined (y := y) (.inl hx)).1
      simp [hy, hle, place_lt hy hx]
    · simp [hy, le_iff_of_compare (compare_place hx hy)]

instance : SortsTotally Float where
  trans a b c := by simpa only [sortsBefore_iff] using le_trans
  total a b := by simpa only [Bool.or_eq_true, sortsBefore_iff] using le_total (place a) (place b)

end CityTour.Double
