import Mathlib
import CityTour.Arc

/-! The places of arcs.  Every arc between two different cities has a place below `n * (n - 1)`, no
two arcs share one, and every such place is that of an arc; so the arcs alone tell rows apart.  The
arcs, row by row, are at the places in order (`map_index_arcs`). -/

namespace CityTour.Arc

variable {n : ℕ} {i j i' j' : Fin n}

/-- The place of an arc among the arcs that leave its first city. -/
def offset (i j : Fin n) : ℕ := if i < j then j.val - 1 else j.val

theorem index_eq (i j : Fin n) : index i j = i.val * (n - 1) + offset i j := by
  rw [index, offset]
  split
  · rename_i h
    rw [Fin.lt_def] at h
    omega
  · rfl

theorem offset_lt (h : i ≠ j) : offset i j < n - 1 := by
  have := Fin.val_ne_of_ne h
  rw [offset]
  split
  all_goals
    rename_i hij
    rw [Fin.lt_def] at hij
    omega

theorem offset_injective (h : i ≠ j) (h' : i ≠ j') (heq : offset i j = offset i j') : j = j' := by
  have hj := Fin.val_ne_of_ne h
  have hj' := Fin.val_ne_of_ne h'
  simp only [offset, Fin.lt_def] at heq
  refine Fin.ext ?_
  split at heq <;> split at heq <;> omega

theorem index_lt (h : i ≠ j) : index i j < n * (n - 1) := by
  have hrow : (i.val + 1) * (n - 1) ≤ n * (n - 1) := Nat.mul_le_mul_right _ i.isLt
  rw [Nat.add_mul, Nat.one_mul] at hrow
  have := offset_lt h
  rw [index_eq]
  omega

theorem index_div (h : i ≠ j) : index i j / (n - 1) = i.val := by
  have := offset_lt h
  rw [index_eq, Nat.mul_comm, Nat.mul_add_div (by omega), Nat.div_eq_of_lt this, Nat.add_zero]

theorem index_mod (h : i ≠ j) : index i j % (n - 1) = offset i j := by
  rw [index_eq, Nat.mul_comm, Nat.mul_add_mod, Nat.mod_eq_of_lt (offset_lt h)]

/-- Two arcs at one place are the same arc. -/
theorem index_injective (h : i ≠ j) (h' : i' ≠ j') (heq : index i j = index i' j') :
    i = i' ∧ j = j' := by
  have hi : i = i' := Fin.ext (by rw [← index_div h, heq, index_div h'])
  subst hi
  exact ⟨rfl, offset_injective h h' (by rw [← index_mod h, heq, index_mod h'])⟩

/-- Every place below `n * (n - 1)` is the place of an arc. -/
theorem exists_index {m : ℕ} (hm : m < n * (n - 1)) : ∃ i j : Fin n, i ≠ j ∧ index i j = m := by
  have hpos : 0 < n - 1 := Nat.pos_of_mul_pos_left (by omega : 0 < n * (n - 1))
  have hrow : m / (n - 1) < n := Nat.div_lt_of_lt_mul (by rwa [Nat.mul_comm])
  have hcol := Nat.mod_lt m hpos
  have hplace := Nat.div_add_mod m (n - 1)
  by_cases hlt : m % (n - 1) < m / (n - 1)
  · refine ⟨⟨m / (n - 1), hrow⟩, ⟨m % (n - 1), by omega⟩, by simp; omega, ?_⟩
    rw [index_eq, offset, if_neg (by simp; omega), Nat.mul_comm]
    exact hplace
  · refine ⟨⟨m / (n - 1), hrow⟩, ⟨m % (n - 1) + 1, by omega⟩, by simp; omega, ?_⟩
    rw [index_eq, offset, if_pos (by simp; omega), Nat.mul_comm]
    simpa using hplace

/-- Rows with the same entry for every arc are the same row. -/
theorem eq_of_arcs {β : Type} {x y : List β} (hx : x.length = n * (n - 1))
    (hy : y.length = n * (n - 1))
    (h : ∀ i j : Fin n, i ≠ j → x[index i j]? = y[index i j]?) : x = y := by
  refine List.ext_getElem? fun m => ?_
  by_cases hm : m < n * (n - 1)
  · obtain ⟨i, j, hij, rfl⟩ := exists_index hm
    exact h i j hij
  · rw [List.getElem?_eq_none (by omega), List.getElem?_eq_none (by omega)]

/-! ### Reading a row -/

theorem index?_coe (h : i ≠ j) :
    index? ((i : ℕ) : ℤ) ((j : ℕ) : ℤ) n = .ok ((index i j : ℕ) : ℤ) := by
  have hne := Fin.val_ne_of_ne h
  have hi := i.isLt
  have hj := j.isLt
  have hrow : (((i : ℕ) * (n - 1) : ℕ) : ℤ) = ((i : ℕ) : ℤ) * ((n : ℤ) - 1) := by
    rw [Nat.cast_mul, Nat.cast_sub (by omega), Nat.cast_one]
  rw [index?, if_pos (by omega), index, ← hrow]
  congr 1
  simp only [Fin.lt_def, Nat.cast_lt]
  split <;> omega

variable {α : Type} {x : List α} {v : α}

/-- The entry of an arc stands at its place. -/
theorem entry_of_ne (h : i ≠ j) : entry x i j =
    match x[index i j]? with
    | some v => .ok v
    | none => .error .outOfRange := by
  rw [entry, index?_coe h]
  rfl

theorem entry_eq_ok (h : i ≠ j) (hv : x[index i j]? = some v) : entry x i j = .ok v := by
  rw [entry_of_ne h, hv]

/-! ### All arcs -/

/-- All arcs, row by row. -/
def arcs (n : ℕ) : List (Fin n × Fin n) :=
  (List.finRange n).flatMap fun i => ((List.finRange n).filter (i ≠ ·)).map fun j => (i, j)

theorem mem_arcs : (i, j) ∈ arcs n ↔ i ≠ j := by
  simp [arcs]

theorem offset_lt_offset (h : i ≠ j) (h' : i ≠ j') (hlt : j < j') : offset i j < offset i j' := by
  have hj := Fin.val_ne_of_ne h
  have hj' := Fin.val_ne_of_ne h'
  simp only [offset, Fin.lt_def] at hlt ⊢
  split <;> split <;> omega

theorem index_lt_of_row_lt (h : i ≠ j) (hlt : i < i') : index i j < index i' j' := by
  have hrow : (i.val + 1) * (n - 1) ≤ i'.val * (n - 1) := Nat.mul_le_mul_right _ hlt
  have hoffset := offset_lt h
  rw [Nat.add_mul, Nat.one_mul] at hrow
  rw [index_eq, index_eq]
  omega

theorem index_lt_of_column_lt (h : i ≠ j) (h' : i ≠ j') (hlt : j < j') :
    index i j < index i j' := by
  rw [index_eq, index_eq]
  exact Nat.add_lt_add_left (offset_lt_offset h h' hlt) _

theorem arcs_pairwise (n : ℕ) : (arcs n).Pairwise fun a b => index a.1 a.2 < index b.1 b.2 := by
  have hcities : (List.finRange n).Pairwise (· < ·) := List.pairwise_lt_finRange n
  apply List.pairwise_flatMap.mpr
  constructor
  · intro i _
    refine List.pairwise_map.mpr ((hcities.filter _).imp_of_mem fun {j j'} hj hj' hlt => ?_)
    rw [List.mem_filter] at hj hj'
    exact index_lt_of_column_lt (of_decide_eq_true hj.2) (of_decide_eq_true hj'.2) hlt
  · refine hcities.imp fun {i i'} hlt a ha b hb => ?_
    obtain ⟨j, hj, rfl⟩ := List.mem_map.mp ha
    obtain ⟨j', -, rfl⟩ := List.mem_map.mp hb
    exact index_lt_of_row_lt (of_decide_eq_true (List.mem_filter.mp hj).2) hlt

/-- The arcs in order are at the places in order. -/
theorem map_index_arcs (n : ℕ) :
    (arcs n).map (fun a => index a.1 a.2) = List.range (n * (n - 1)) := by
  have hsorted : ((arcs n).map fun a => index a.1 a.2).Pairwise (· < ·) :=
    List.pairwise_map.mpr (arcs_pairwise n)
  have hplaces : (List.range (n * (n - 1))).Pairwise (· < ·) := List.pairwise_lt_range
  have hperm : ((arcs n).map fun a => index a.1 a.2).Perm (List.range (n * (n - 1))) := by
    rw [List.perm_ext_iff_of_nodup (hsorted.imp ne_of_lt) (hplaces.imp ne_of_lt)]
    intro m
    rw [List.mem_range, List.mem_map]
    constructor
    · rintro ⟨⟨i, j⟩, harc, rfl⟩
      exact index_lt (mem_arcs.mp harc)
    · intro hm
      obtain ⟨i, j, hij, hindex⟩ := exists_index hm
      exact ⟨(i, j), mem_arcs.mpr hij, hindex⟩
  exact hperm.eq_of_pairwise (fun a b _ _ hab hba => absurd hab hba.asymm) hsorted hplaces

end CityTour.Arc
