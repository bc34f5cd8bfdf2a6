import Mathlib
import CityTour.Proofs.Arc.Order
import CityTour.Proofs.Encoding.Feasible
import CityTour.Proofs.Number.Double
import CityTour.Proofs.Route

/-! Reading any row of numbers.  Arcs and keys are refused if their count is wrong and otherwise
read as a tour whose entries name cities, whatever the numbers are.  Cities are cut to integers, and
the first number that is not finite decides the fault. -/

namespace CityTour.Encoding

section AnyNumbers

variable {α : Type} {e : Encoding} {n : ℕ} {x : List α}

theorem length_eq_of_dimension_full (h : (x.length : ℤ) = full.dimension n) :
    x.length = n * (n - 1) := by
  rw [dimension_full] at h
  exact Int.ofNat.inj h

variable [Scalar α]

theorem decode_of_length_ne (he : e ≠ .cities) (h : (x.length : ℤ) ≠ e.dimension n) :
    e.decode n x = refuse (.chromosomeSize e.title (e.dimension n) x.length) := by
  have hsize : e.checkSize n x = refuse (.chromosomeSize e.title (e.dimension n) x.length) :=
    if_neg h
  cases e with
  | full =>
    rw [decode, hsize]
    rfl
  | randomKeys =>
    rw [decode, hsize]
    rfl
  | cities => exact absurd rfl he

/-- Arcs and keys of the declared count are read as a tour whose entries name cities. -/
theorem exists_decode (hn : 0 < n) (he : e ≠ .cities) (h : (x.length : ℤ) = e.dimension n) :
    ∃ tour, e.decode n x = .ok tour ∧ tour.length = n ∧ NamesCities n tour := by
  cases e with
  | full =>
    have hx := length_eq_of_dimension_full h
    have hwalk := Arc.walk_eq hx.ge hn
    refine ⟨_, decode_of_walk hx hwalk, ?_, namesCities_numbers _⟩
    rw [length_numbers, List.length_iterate]
  | randomKeys =>
    have hx : x.length = n := Int.ofNat.inj h
    refine ⟨(sortedPlaces x).map Int.ofNat, ?_, ?_, ?_⟩
    · rw [decode, checkSize_of_length h]
      rfl
    · rw [List.length_map, (sortedPlaces_perm x).length_eq, List.length_range, hx]
    · intro i hi
      obtain ⟨k, hk, rfl⟩ := List.mem_map.mp hi
      have hlt : k < x.length := List.mem_range.mp ((sortedPlaces_perm x).mem_iff.mp hk)
      show -(n : ℤ) ≤ (k : ℤ) ∧ (k : ℤ) < n
      omega
  | cities => exact absurd rfl he

/-- Equations and inequalities of arcs are as many as declared. -/
theorem constraintDimensions_full (hn : 0 < n) :
    (full.constraintDimensions n).1 = ((2 * n + (n - 1) * (n - 2) : ℕ) : ℤ) := by
  have hinner := Arc.innerCount_natCast hn
  rw [Nat.cast_add, ← hinner]
  show (n : ℤ) * (n - 1) + 2 = (2 * n : ℕ) + (n - 1) * (n - 2)
  push_cast
  ring

/-- The constraints are defined and as many as declared.  Only those on arcs read their row place by
place. -/
theorem exists_constraints (hn : 0 < n) (h : e = .full → (x.length : ℤ) = e.dimension n) :
    ∃ entries, e.constraints n x = .ok entries ∧
      (entries.length : ℤ) = (e.constraintDimensions n).1 := by
  cases e with
  | full =>
    have hx := length_eq_of_dimension_full (h rfl)
    obtain ⟨entries, hentries, hcount⟩ := Arc.exists_constraints hx.ge hn
    refine ⟨entries, ?_, ?_⟩
    · rw [constraints_full hx, hentries]
    · rw [constraintDimensions_full hn, hcount]
  | randomKeys => exact ⟨[], rfl, rfl⟩
  | cities => exact ⟨permutationEntry n x, rfl, rfl⟩

end AnyNumbers

/-! ### Doubles cut to integers -/

variable {n : ℕ} {x : List Float}

open Double

/-- The first double that is not finite decides the fault. -/
theorem decode_cities_of_find {v : Float} (h : x.find? (fun v => !v.isFinite) = some v) :
    cities.decode n x = .error (if v.isNaN then .undefinedNumber else .unboundedNumber) := by
  obtain ⟨hv, pre, post, rfl, hpre⟩ := List.find?_eq_some_iff_append.mp h
  apply mapM_error
  · intro u hu
    obtain ⟨q, hq⟩ := (isFinite_iff u).mp (by simpa using hpre u hu)
    exact ⟨towardZero q, truncate_of_value hq⟩
  · exact truncate_of_not_isFinite (by simpa using hv)

/-- Finite doubles are cut toward zero. -/
theorem decode_cities_of_finite (h : ∀ v ∈ x, v.isFinite = true) :
    cities.decode n x = .ok ((x.filterMap value?).map towardZero) := by
  show x.mapM truncate = _
  induction x with
  | nil => rfl
  | cons v x ih =>
    obtain ⟨q, hq⟩ := (isFinite_iff v).mp (h v List.mem_cons_self)
    rw [List.mapM_cons, truncate_of_value hq, ih fun u hu => h u (List.mem_cons_of_mem v hu),
      List.filterMap_cons_some hq]
    rfl

theorem length_filterMap_value (h : ∀ v ∈ x, v.isFinite = true) :
    (x.filterMap value?).length = x.length := by
  rw [List.length_filterMap_eq_countP, List.countP_eq_length]
  intro v hv
  obtain ⟨q, hq⟩ := (isFinite_iff v).mp (h v hv)
  rw [hq]
  rfl

end CityTour.Encoding
