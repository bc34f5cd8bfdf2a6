import Mathlib
import CityTour.Proofs.Encoding.Feasible
import CityTour.Proofs.Number.Counting
import CityTour.Proofs.Sequence

/-! The constraints on the arcs of a tour, with numbers that count past the cities.  The equations
of two or more cities are exactly zero, and no inequality is positive, as every sum on the way is an
integer that the numbers count.  A city alone has no arcs: each of its two equations misses one, so
they are minus one. -/

namespace CityTour.Arc

open Scalar Encoding

variable {α : Type} [Scalar α] {m n : ℕ} [CountsTo α m] {visits : List (Fin n)} {i j k : Fin n}

theorem entry_arcsOf (h : visits.Perm (List.finRange n)) (hij : i ≠ j) :
    entry (arcsOf n (numbers visits) : List α) i j =
      .ok (if visits.formPerm i = j then 1 else 0) :=
  entry_eq_ok hij (getElem?_arcsOf h hij)

/-- The entries of the arcs of a tour are zeros and ones. -/
theorem mem_arcsOf (h : visits.Perm (List.finRange n)) {v : α}
    (hv : v ∈ (arcsOf n (numbers visits) : List α)) : v = 0 ∨ v = 1 := by
  obtain ⟨place, hplace, rfl⟩ := List.getElem_of_mem hv
  obtain ⟨i, j, hij, rfl⟩ := exists_index (hplace.trans_eq (length_arcsOf visits))
  have hentry := getElem?_arcsOf (α := α) h hij
  rw [List.getElem?_eq_getElem hplace, Option.some.injEq] at hentry
  rw [hentry]
  split
  · exact .inr rfl
  · exact .inl rfl

/-- The tour leaves every city for another one, if there is another one. -/
theorem formPerm_apply_ne (h : visits.Perm (List.finRange n)) (hn : 2 ≤ n) (i : Fin n) :
    visits.formPerm i ≠ i := by
  have hlen : 2 ≤ visits.length := by rwa [length_of_perm_finRange h]
  exact (visits.formPerm_apply_mem_ne_self_iff (nodup_of_perm_finRange h) i
    (mem_of_perm_finRange h i)).mpr hlen

/-! ### The equations -/

/-- Of terms of which a single one is one and all others are zero, the sum is one. -/
theorem sumOver_indicator (hn : n ≤ m) (hk : k ≠ i) {term : Fin n → Except Fault α}
    (h : ∀ j, j ≠ i → term j = .ok (if k = j then 1 else 0)) : sumOver i term = .ok 1 := by
  -- The sum so far is a count, of which each step adds what `cities` still holds of `k`.
  have hfold : ∀ (cities : List (Fin n)) (a : ℕ), a + cities.length ≤ m →
      cities.foldlM (fun total j => if j = i then .ok total else do return total + (← term j))
        (ofInt a : α) = .ok (ofInt ((a + cities.count k : ℕ) : ℤ)) := by
    intro cities
    induction cities with
    | nil => simp [pure, Except.pure]
    | cons j cities ih =>
      intro a ha
      rw [List.length_cons] at ha
      rw [List.foldlM_cons]
      by_cases hj : j = i
      · rw [if_pos hj, ok_bind, ih a (by omega), List.count_cons_of_ne (by rw [hj]; exact hk.symm)]
      · rw [if_neg hj, h j hj]
        show (cities.foldlM _ (ofInt (a : ℤ) + (if k = j then 1 else 0)) : Except Fault α) = _
        by_cases hkj : k = j
        · have hsum : (ofInt (a : ℤ) + 1 : α) = ofInt ((a + 1 : ℕ) : ℤ) := by
            rw [← CountsTo.ofInt_one m, CountsTo.add (m := m) a 1 (by simp; omega) (by simp; omega)]
            rfl
          rw [if_pos hkj, hsum, ih (a + 1) (by omega), hkj, List.count_cons_self,
            Nat.add_right_comm, Nat.add_assoc]
        · have hsum : (ofInt (a : ℤ) + 0 : α) = ofInt (a : ℤ) := by
            rw [← CountsTo.ofInt_zero m, CountsTo.add (m := m) a 0 (by simp; omega) (by simp),
              add_zero]
          rw [if_neg hkj, hsum, ih a (by omega), List.count_cons_of_ne (Ne.symm hkj)]
  have hcount : (List.finRange n).count k = 1 :=
    List.count_eq_one_of_mem (List.nodup_finRange n) (List.mem_finRange k)
  have htotal := hfold (List.finRange n) 0 (by rw [List.length_finRange]; omega)
  rw [hcount, Nat.cast_zero, CountsTo.ofInt_zero m, Nat.zero_add, Nat.cast_one,
    CountsTo.ofInt_one m] at htotal
  exact htotal

/-- Every city of a tour through two cities or more is left once and entered once. -/
theorem degree_arcsOf (h : visits.Perm (List.finRange n)) (hn : 2 ≤ n) (hm : n ≤ m) :
    degree n (arcsOf n (numbers visits) : List α) = .ok (List.replicate (2 * n) 0) := by
  have hout : ((List.finRange n).mapM fun i =>
      sumOver i fun j => entry (arcsOf n (numbers visits) : List α) i j) =
        .ok ((List.finRange n).map fun _ => 1) :=
    mapM_ok fun i _ => sumOver_indicator hm (formPerm_apply_ne h hn i) fun j hj =>
      entry_arcsOf h hj.symm
  have hinto : ((List.finRange n).mapM fun i =>
      sumOver i fun j => entry (arcsOf n (numbers visits) : List α) j i) =
        .ok ((List.finRange n).map fun _ => 1) := by
    refine mapM_ok fun i _ => sumOver_indicator (k := visits.formPerm.symm i) hm ?_ fun j hj => ?_
    · intro hfix
      exact formPerm_apply_ne h hn i ((Equiv.symm_apply_eq _).mp hfix).symm
    · rw [entry_arcsOf h hj]
      exact congrArg Except.ok (if_congr ((eq_comm).trans (Equiv.symm_apply_eq _).symm) rfl rfl)
  have hzero : (1 - 1 : α) = 0 := by
    rw [← CountsTo.ofInt_one m, ← CountsTo.ofInt_zero m,
      CountsTo.sub (m := m) 1 1 (by simp; omega) (by simp; omega), sub_self]
  rw [degree, hout, ok_bind, hinto, ok_bind]
  show Except.ok _ = Except.ok _
  simp [hzero, Nat.two_mul]

/-- No arc leaves or enters a city alone. -/
theorem degree_one (x : List α) : degree 1 x = .ok [0 - 1, 0 - 1] := rfl

/-! ### The inequalities -/

/-- The walk along the arcs of a tour labels the cities so that every inequality holds. -/
theorem order_le (h : visits.Perm (List.finRange n)) (hn : 2 ≤ n)
    (hpair : (i, j) ∈ innerPairs n) {u : Vector ℕ n}
    (hu : u = labelsOf (List.iterate visits.formPerm ⟨0, by omega⟩ n)) :
    (u.get i : ℤ) - u.get j + (if visits.formPerm i = j then (n : ℤ) + 1 else 0) ≤ n := by
  have hfollows := follows_arcsOf h hn
  have hround := iterate_formPerm (nodup_of_perm_finRange h)
    (List.idxOf_lt_length_iff.mpr (mem_of_perm_finRange h ⟨0, by omega⟩))
  rw [List.getElem_idxOf, length_of_perm_finRange h] at hround
  have hall : ∀ c, c ∈ List.iterate visits.formPerm ⟨0, by omega⟩ n := fun c => by
    rw [hround, List.mem_rotate]
    exact mem_of_perm_finRange h c
  have hvalue := (hfollows.inequalities_nonpos_iff (by omega)).mpr hall _
    (List.mem_map_of_mem hpair)
  rw [orderValue, hfollows, ← hu] at hvalue
  split at hvalue
  · rename_i hnext
    rw [if_pos hnext]
    have hle : (u.get i : ℚ) - u.get j + (n + 1) ≤ n := by linarith
    exact_mod_cast hle
  · rename_i hnext
    rw [if_neg hnext]
    have hle : (u.get i : ℚ) - u.get j + 0 ≤ n := by linarith
    exact_mod_cast hle

theorem orderEntry_arcsOf (h : visits.Perm (List.finRange n)) (hn : 2 ≤ n) (hm : n < m)
    (hpair : (i, j) ∈ innerPairs n) {u : Vector ℕ n}
    (hu : u = labelsOf (List.iterate visits.formPerm ⟨0, by omega⟩ n)) :
    ∃ e : α, orderEntry n u (arcsOf n (numbers visits)) i j = .ok e ∧ e ≤ 0 := by
  have hle := order_le h hn hpair hu
  have hi : u.get i ≤ n := by
    rw [hu]
    exact (labelsOf_le i).trans_eq (List.length_iterate ..)
  have hj : u.get j ≤ n := by
    rw [hu]
    exact (labelsOf_le j).trans_eq (List.length_iterate ..)
  -- The arc counts for one more than all cities, or not at all.
  have hslope : (ofInt ((n : ℤ) + 1) * (if visits.formPerm i = j then 1 else 0) : α) =
      ofInt (if visits.formPerm i = j then (n : ℤ) + 1 else 0) := by
    split
    · have hmul := CountsTo.mul (α := α) (m := m) (n + 1) 1 (by omega) (by omega)
      simpa [CountsTo.ofInt_one m] using hmul
    · have hmul := CountsTo.mul (α := α) (m := m) (n + 1) 0 (by omega) (by omega)
      simpa [CountsTo.ofInt_zero m] using hmul
  have hselected : |(if visits.formPerm i = j then (n : ℤ) + 1 else 0)| ≤ m := by
    split
    · rw [abs_of_nonneg (by omega)]
      omega
    · simp
  have hlabels : |(u.get i : ℤ) - u.get j| ≤ m := abs_le.mpr ⟨by omega, by omega⟩
  have hsum : |(u.get i : ℤ) - u.get j +
      (if visits.formPerm i = j then (n : ℤ) + 1 else 0)| ≤ m := by
    refine abs_le.mpr ⟨?_, by omega⟩
    split <;> omega
  refine ⟨_, by rw [orderEntry, entry_arcsOf h (mem_innerPairs.mp hpair).2.2]; rfl, ?_⟩
  rw [hslope, CountsTo.add (m := m) _ _ hlabels hselected,
    CountsTo.sub (m := m) _ _ hsum (by simp; omega)]
  exact CountsTo.nonpos m _ (by omega)

/-- No inequality of the arcs of a tour is positive. -/
theorem subtour_arcsOf (h : visits.Perm (List.finRange n)) (hn : 2 ≤ n) (hm : n < m) :
    ∃ entries, subtour n (arcsOf n (numbers visits) : List α) = .ok entries ∧
      entries.length = (n - 1) * (n - 2) ∧ ∀ e ∈ entries, e ≤ 0 := by
  have : UnitsApart α := CountsTo.unitsApart m (by omega)
  have hwalk := walk_eq (length_arcsOf (α := α) visits).ge (show 0 < n by omega)
  rw [successor_arcsOf h] at hwalk
  obtain ⟨entries, hentries, hlen, hle⟩ := exists_mapM_ok_forall (l := innerPairs n)
    fun p hp => orderEntry_arcsOf (α := α) h hn hm (i := p.1) (j := p.2) hp rfl
  exact ⟨entries, subtour_of_entries (by omega) (labels_of_walk hwalk) hentries,
    hlen.trans (length_innerPairs n), hle⟩

end CityTour.Arc
