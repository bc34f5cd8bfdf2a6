import Mathlib
import CityTour.Proofs.Encoding.Decode

/-! Where the constraints on arcs stand, in exact arithmetic.  First come the equations of the arcs
that leave each city, then those of the arcs that enter it, and then the inequalities of the arcs
between inner cities, each in its slot (`constraints_layout`).  The split of the constraints for a
tolerance is the one between equations and inequalities. -/

namespace CityTour

/-- Where a function numbers the entries of a list in order, it finds every entry again. -/
theorem getElem?_of_map_eq_range {β : Type} {l : List β} {f : β → ℕ} {N : ℕ}
    (h : l.map f = List.range N) {b : β} (hb : b ∈ l) : l[f b]? = some b := by
  obtain ⟨k, hk, rfl⟩ := List.getElem_of_mem hb
  have hlen : k < N := by
    have hcount := congrArg List.length h
    rw [List.length_map, List.length_range] at hcount
    omega
  have hnumber : (l.map f)[k]? = (List.range N)[k]? := by rw [h]
  rw [List.getElem?_map, List.getElem?_eq_getElem hk, List.getElem?_range hlen] at hnumber
  rw [Option.some.inj hnumber, List.getElem?_eq_getElem hk]

namespace Arc

variable {n : ℕ} {x : List ℚ} {u : Vector ℕ n} {i j : Fin n}

theorem sum_cell_row (x : List ℚ) (i : Fin n) :
    ∑ j, cell x i j = ∑ j ∈ Finset.univ.erase i, cell x i j := by
  rw [← Finset.add_sum_erase _ _ (Finset.mem_univ i), cell_self, zero_add]

theorem sum_cell_column (x : List ℚ) (i : Fin n) :
    ∑ j, cell x j i = ∑ j ∈ Finset.univ.erase i, cell x j i := by
  rw [← Finset.add_sum_erase _ _ (Finset.mem_univ i), cell_self, zero_add]

theorem getElem?_equations_row (x : List ℚ) (i : Fin n) :
    (equations n x)[i.val]? = some (∑ j ∈ Finset.univ.erase i, cell x i j - 1) := by
  rw [← sum_cell_row, equations, List.getElem?_append_left (by simp)]
  simp

theorem getElem?_equations_column (x : List ℚ) (i : Fin n) :
    (equations n x)[n + i.val]? = some (∑ j ∈ Finset.univ.erase i, cell x j i - 1) := by
  rw [← sum_cell_column, equations, List.getElem?_append_right (by simp)]
  simp

theorem getElem?_inequalities (hi : 0 < i.val) (hj : 0 < j.val) (hij : i ≠ j) :
    (inequalities x u)[slot i j]? = some (orderValue x u i j) := by
  have hpair := getElem?_of_map_eq_range (map_slot_innerPairs n) (mem_innerPairs.mpr ⟨hi, hj, hij⟩)
  rw [inequalities, List.getElem?_map, hpair]
  rfl

/-- Labels of a walk are at most as many as there are cities, so an arc that is not taken breaks no
inequality. -/
theorem orderValue_nonpos (hi : u.get i ≤ n) (hcell : cell x i j = 0) : orderValue x u i j ≤ 0 := by
  have hle : (u.get i : ℚ) ≤ n := Nat.cast_le.mpr hi
  have hpos : (0 : ℚ) ≤ u.get j := Nat.cast_nonneg _
  rw [orderValue, hcell]
  linarith

end Arc

namespace Encoding

open Arc

variable {n : ℕ} {x : List ℚ}

/-- The constraints on arcs have the declared counts.  The equation of the arcs that leave a city is
at the number of the city, and that of the arcs that enter it stands as many places later as there
are cities; the inequality of an arc between inner cities is in the slot of the arc behind all
equations, and the slots are filled in order.  An arc that is not taken breaks no inequality.  A
tolerance bounds the magnitudes of the equations and the inequalities themselves. -/
theorem constraints_layout (hn : 0 < n) (hx : x.length = n * (n - 1)) :
    ∃ (entries : List ℚ) (u : Vector ℕ n),
      full.constraints n x = .ok entries ∧ Arc.labels n x = .ok u ∧
      full.constraintDimensions n = ((entries.length : ℤ), ((n - 1) * (n - 2) : ℤ)) ∧
      entries.length = 2 * n + (n - 1) * (n - 2) ∧
      (∀ i j : Fin n, i ≠ j → Arc.entry x i j = .ok (cell x i j)) ∧
      (∀ i : Fin n,
        entries[i.val]? = some (∑ j ∈ Finset.univ.erase i, cell x i j - 1) ∧
        entries[n + i.val]? = some (∑ j ∈ Finset.univ.erase i, cell x j i - 1)) ∧
      (∀ i j : Fin n, 0 < i.val → 0 < j.val → i ≠ j → ∃ e,
        entries[2 * n + slot i j]? = some e ∧
        e = u.get i - u.get j + (n + 1) * cell x i j - n ∧ (cell x i j = 0 → e ≤ 0)) ∧
      (innerPairs n).map (fun p => slot p.1 p.2) = List.range ((n - 1) * (n - 2)) ∧
      ∀ (N : Network ℚ n) (t : ℚ), ∃ accepted,
        (Problem.mk n N .full).feasible x t = .ok accepted ∧
        (accepted = true ↔ (∀ e ∈ entries.take (2 * n), |e| ≤ t) ∧
          ∀ e ∈ entries.drop (2 * n), e ≤ t) := by
  have hwalk := Arc.walk_eq hx.ge hn
  have hbound : ∀ i, (labelsOf (List.iterate (successor x) ⟨0, hn⟩ n)).get i ≤ n := fun i =>
    (labelsOf_le i).trans_eq (List.length_iterate ..)
  generalize List.iterate (successor x) ⟨0, hn⟩ n = visits at hwalk hbound
  have hlabels := Arc.labels_of_walk hwalk
  have hequations := length_equations n x
  have hinequalities := length_inequalities x (labelsOf visits)
  have hlength : (equations n x ++ inequalities x (labelsOf visits)).length =
      2 * n + (n - 1) * (n - 2) := by
    rw [List.length_append, hequations, hinequalities]
  refine ⟨equations n x ++ inequalities x (labelsOf visits), labelsOf visits,
    (constraints_full hx).trans (Arc.constraints_eq hx.ge hn hlabels), hlabels, ?_, hlength, ?_, ?_,
    ?_, map_slot_innerPairs n, ?_⟩
  · rw [hlength]
    exact Prod.ext (constraintDimensions_full hn) rfl
  · intro i j hij
    exact entry_eq hx.ge hij
  · intro i
    have hi := i.isLt
    rw [List.getElem?_append_left (by omega), List.getElem?_append_left (by omega)]
    exact ⟨getElem?_equations_row x i, getElem?_equations_column x i⟩
  · intro i j hi hj hij
    refine ⟨orderValue x (labelsOf visits) i j, ?_, rfl, orderValue_nonpos (hbound i)⟩
    rw [List.getElem?_append_right (by omega), hequations, Nat.add_sub_cancel_left]
    exact getElem?_inequalities hi hj hij
  · intro N t
    refine ⟨_, Problem.feasible_of_walk (p := ⟨n, N, .full⟩) rfl hx hn hwalk, ?_⟩
    rw [List.take_left' hequations, List.drop_left' hequations,
      withinTolerance_append hinequalities]
    simp only [Bool.and_eq_true, List.all_eq_true, decide_eq_true_eq, Scalar.magnitude_rational]

/-- A row through four cities that follows no tour, with a fraction and a negative entry. -/
def looseRow : List ℚ := [1 / 2, 0, 1 / 2, 1, 0, 0, 0, 0, 3, 0, -1, 0]

theorem constraints_layout_loose : ∃ entries : List ℚ, full.constraints 4 looseRow = .ok entries ∧
    entries.length = 14 ∧ entries[7]? = some (5 / 2) ∧ ∃ e, entries[10]? = some e ∧ e ≤ 0 := by
  obtain ⟨entries, u, hconstraints, -, -, hlength, -, hequations, hinequalities, -, -⟩ :=
    constraints_layout (n := 4) (x := looseRow) (by decide) rfl
  obtain ⟨-, hentering⟩ := hequations 3
  have hsum : ∑ j ∈ Finset.univ.erase 3, cell looseRow j (3 : Fin 4) - 1 = 5 / 2 := by
    decide +kernel
  obtain ⟨e, hentry, -, hle⟩ := hinequalities 2 1 (by decide) (by decide) (by decide)
  exact ⟨entries, hconstraints, hlength, hsum ▸ hentering, e, hentry, hle (by decide +kernel)⟩

end Encoding

end CityTour
