import Mathlib
import CityTour.Encoding
import CityTour.Proofs.Arc.Walk
import CityTour.Proofs.Scalar
import CityTour.Proofs.Tour

/-! The arcs of closed tours.  The row of a tour selects the arcs from every city to the one that
the tour visits next, so the walk along it goes around the tour from the first city
(`walk_arcsOf`). -/

namespace CityTour

namespace Arc

open Encoding

variable {α : Type} [Scalar α] {n : ℕ}

/-- A row with some arcs selected in addition; an arc from a city to itself is left out. -/
def mark (legs : List (Fin n × Fin n)) (x : List α) : List α :=
  legs.foldl (fun x leg => if leg.1 = leg.2 then x else x.set (index leg.1 leg.2) 1) x

theorem length_mark (legs : List (Fin n × Fin n)) (x : List α) :
    (mark legs x).length = x.length := by
  induction legs generalizing x with
  | nil => rfl
  | cons leg legs ih =>
    rw [mark, List.foldl_cons, ← mark, ih]
    split
    · rfl
    · exact List.length_set

theorem getElem?_mark (legs : List (Fin n × Fin n)) {x : List α} (hx : x.length = n * (n - 1))
    {i j : Fin n} (hij : i ≠ j) :
    (mark legs x)[index i j]? = if (i, j) ∈ legs then some 1 else x[index i j]? := by
  induction legs generalizing x with
  | nil => simp [mark]
  | cons leg legs ih =>
    obtain ⟨a, b⟩ := leg
    have hlt : index i j < x.length := (index_lt hij).trans_eq hx.symm
    rw [mark, List.foldl_cons, ← mark]
    by_cases hab : a = b
    · have hne : (i, j) ≠ (a, b) := fun h => hij (by simp_all)
      simp [if_pos hab, ih hx, hne]
    · rw [if_neg hab, ih (by simpa using hx)]
      by_cases heq : (i, j) = (a, b)
      · obtain ⟨rfl, rfl⟩ := Prod.mk.inj heq
        simp [hlt]
      · have hne : index a b ≠ index i j := fun h => heq (by
          obtain ⟨rfl, rfl⟩ := index_injective hab hij h
          rfl)
        simp [List.getElem?_set_ne hne, heq]

/-! ### The row of a tour -/

variable {visits : List (Fin n)}

theorem rotate_one {β : Type} (l : List β) : l.rotate 1 = l.drop 1 ++ l.take 1 := by
  cases l <;> simp

theorem arcsOf_numbers (visits : List (Fin n)) : (arcsOf n (numbers visits) : List α) =
    mark (visits.zip (visits.rotate 1)) (List.replicate (n * (n - 1)) 0) := by
  rw [arcsOf, map_cityAt?_numbers, mark, ← List.map_drop, ← List.map_take, ← List.map_append,
    ← rotate_one, List.zip_map, List.foldl_map]
  rfl

/-- Without repeated visits, every city is followed by its image. -/
theorem map_formPerm (h : visits.Nodup) : visits.map visits.formPerm = visits.rotate 1 := by
  refine List.ext_getElem (by simp) fun k hk _ => ?_
  rw [List.getElem_map, List.getElem_rotate, visits.formPerm_apply_getElem h]

theorem mem_legs_iff (h : visits.Nodup) {i j : Fin n} :
    (i, j) ∈ visits.zip (visits.rotate 1) ↔ i ∈ visits ∧ visits.formPerm i = j := by
  have hzip : visits.zip (visits.map visits.formPerm) =
      visits.map fun a => (a, visits.formPerm a) := by
    simpa using List.zip_map' (l := visits) (f := id) (g := visits.formPerm)
  rw [← map_formPerm h, hzip]
  simp

theorem length_arcsOf (visits : List (Fin n)) :
    (arcsOf n (numbers visits) : List α).length = n * (n - 1) := by
  rw [arcsOf_numbers, length_mark, List.length_replicate]

/-- The entry of an arc is one where the tour takes it, and zero elsewhere. -/
theorem getElem?_arcsOf (h : visits.Perm (List.finRange n)) {i j : Fin n} (hij : i ≠ j) :
    (arcsOf n (numbers visits) : List α)[index i j]? =
      some (if visits.formPerm i = j then 1 else 0) := by
  have hmem := mem_of_perm_finRange h i
  have hnodup := nodup_of_perm_finRange h
  rw [arcsOf_numbers, getElem?_mark _ (by simp) hij, List.getElem?_replicate,
    if_pos (index_lt hij)]
  simp only [mem_legs_iff hnodup, hmem, true_and]
  split <;> rfl

/-! ### The walk along a tour -/

variable [Scalar.UnitsApart α]

theorem selected_arcsOf (h : visits.Perm (List.finRange n)) {i j : Fin n} (hij : i ≠ j) :
    selected (arcsOf n (numbers visits) : List α) i j = decide (visits.formPerm i = j) := by
  rw [selected, getElem?_arcsOf h hij]
  by_cases hj : visits.formPerm i = j
  · simp [hj, Scalar.UnitsApart.one_beq_one]
  · simp [hj, Scalar.UnitsApart.zero_beq_one]

/-- Along the row of a tour, the walk goes on to the city that the tour visits next. -/
theorem successor_arcsOf (h : visits.Perm (List.finRange n)) :
    successor (arcsOf n (numbers visits) : List α) = visits.formPerm :=
  successor_eq fun _ _ hij => selected_arcsOf h hij

/-- From any of the visits on, a closed tour goes around to all of them. -/
theorem iterate_formPerm (h : visits.Nodup) {k : ℕ} (hk : k < visits.length) :
    List.iterate visits.formPerm visits[k] visits.length = visits.rotate k := by
  refine List.ext_getElem (by simp) fun m hm _ => ?_
  rw [List.getElem_iterate, List.getElem_rotate, Equiv.Perm.iterate_eq_pow,
    visits.formPerm_pow_apply_getElem h]
  simp only [Nat.add_comm]

/-- The walk along the row of a tour goes around the tour from the first city. -/
theorem walk_arcsOf (h : visits.Perm (List.finRange n)) (hn : 0 < n) :
    walk n (arcsOf n (numbers visits) : List α) =
      .ok (visits.rotate (visits.idxOf ⟨0, hn⟩)) := by
  have hlen := length_of_perm_finRange h
  have hidx : visits.idxOf ⟨0, hn⟩ < visits.length :=
    List.idxOf_lt_length_iff.mpr (mem_of_perm_finRange h _)
  have hround := iterate_formPerm (nodup_of_perm_finRange h) hidx
  rw [List.getElem_idxOf, hlen] at hround
  rw [walk_eq (length_arcsOf visits).ge hn, successor_arcsOf h, hround]

end Arc

end CityTour
