import Mathlib
import CityTour.Arc
import CityTour.Proofs.Arc.Walk
import CityTour.Proofs.Scalar
import CityTour.Proofs.Sequence

/-! The equations on arcs, and the sums over all arcs that they split.  `cell` is the entry of an
arc as a matrix has it, with zeros on the diagonal; the equations compare the sums of its rows and
columns with one.  For a row of zeros and ones they hold exactly if the selected arcs are the arcs
along a permutation of the cities (`equations_eq_zero_iff`), and the walk follows that permutation.
-/

namespace CityTour.Arc

variable {n : ℕ} {x : List ℚ} {i j : Fin n}

/-- The entry of an arc, zero if its cities are the same. -/
def cell (x : List ℚ) (i j : Fin n) : ℚ := if i = j then 0 else x.getD (index i j) 0

@[simp] theorem cell_self (x : List ℚ) (i : Fin n) : cell x i i = 0 := if_pos rfl

theorem getElem?_eq_cell (hx : n * (n - 1) ≤ x.length) (h : i ≠ j) :
    x[index i j]? = some (cell x i j) := by
  have hlt : index i j < x.length := (index_lt h).trans_le hx
  rw [cell, if_neg h, List.getElem?_eq_getElem hlt, List.getD_eq_getElem _ _ hlt]

theorem entry_eq (hx : n * (n - 1) ≤ x.length) (h : i ≠ j) : entry x i j = .ok (cell x i j) :=
  entry_eq_ok h (getElem?_eq_cell hx h)

/-! ### Sums -/

theorem sumOver_eq {term : Fin n → Except Fault ℚ} {value : Fin n → ℚ}
    (h : ∀ j, j ≠ i → term j = .ok (value j)) (hi : value i = 0) :
    sumOver i term = .ok (∑ j, value j) := by
  have hfold : ∀ (cities : List (Fin n)) (total : ℚ), cities.foldlM (fun total j =>
      if j = i then .ok total else do return total + (← term j)) total =
        .ok (total + (cities.map value).sum) := by
    intro cities
    induction cities with
    | nil => simp [pure, Except.pure]
    | cons j cities ih =>
      intro total
      rw [List.foldlM_cons, List.map_cons, List.sum_cons, ← add_assoc]
      by_cases hj : j = i
      · rw [if_pos hj, hj, hi, add_zero]
        exact ih total
      · rw [if_neg hj, h j hj]
        exact ih (total + value j)
  rw [sumOver, Fin.sum_univ_def]
  exact (hfold _ 0).trans (by rw [zero_add])

/-- The values of the equations: what leaves and what enters each city, less one. -/
def equations (n : ℕ) (x : List ℚ) : List ℚ :=
  ((List.finRange n).map fun i => ∑ j, cell x i j - 1) ++
    (List.finRange n).map fun i => ∑ j, cell x j i - 1

theorem length_equations (n : ℕ) (x : List ℚ) : (equations n x).length = 2 * n := by
  simp [equations, Nat.two_mul]

theorem degree_eq (hx : n * (n - 1) ≤ x.length) : degree n x = .ok (equations n x) := by
  have hout : ((List.finRange n).mapM fun i => sumOver i fun j => entry x i j) =
      .ok ((List.finRange n).map fun i => ∑ j, cell x i j) :=
    mapM_ok fun i _ => sumOver_eq (fun j hj => entry_eq hx (Ne.symm hj)) (cell_self x i)
  have hinto : ((List.finRange n).mapM fun i => sumOver i fun j => entry x j i) =
      .ok ((List.finRange n).map fun i => ∑ j, cell x j i) :=
    mapM_ok fun i _ => sumOver_eq (fun j hj => entry_eq hx hj) (cell_self x i)
  rw [degree, hout, hinto]
  show Except.ok _ = Except.ok _
  rw [List.map_append, List.map_map, List.map_map]
  rfl

/-! ### Rows along a permutation -/

/-- The arcs of a row lead from every city to its image, and no others are selected. -/
def Follows (x : List ℚ) (σ : Equiv.Perm (Fin n)) : Prop :=
  ∀ i j, cell x i j = if σ i = j then 1 else 0

/-- Of zeros and ones whose sum is one, a single one is not zero. -/
theorem exists_of_sum_eq_one {value : Fin n → ℚ} (hv : ∀ j, value j = 0 ∨ value j = 1)
    (h : ∑ j, value j = 1) : ∃ k, ∀ j, value j = if k = j then 1 else 0 := by
  have hbool : ∀ j, value j = if value j = 1 then 1 else 0 := by
    intro j
    obtain hj | hj := hv j <;> simp [hj]
  rw [Finset.sum_congr rfl fun j _ => hbool j, Finset.sum_boole, Nat.cast_eq_one] at h
  obtain ⟨k, hk⟩ := Finset.card_eq_one.mp h
  refine ⟨k, fun j => ?_⟩
  have hone : value j = 1 ↔ k = j := by
    have hmem : j ∈ Finset.univ.filter (fun j => value j = 1) ↔ j ∈ ({k} : Finset (Fin n)) := by
      rw [hk]
    simpa [eq_comm] using hmem
  rw [hbool j]
  simp only [hone]

variable {σ : Equiv.Perm (Fin n)}

theorem Follows.sum_row (h : Follows x σ) (i : Fin n) : ∑ j, cell x i j = 1 := by
  simp [h i]

theorem Follows.sum_column (h : Follows x σ) (j : Fin n) : ∑ i, cell x i j = 1 := by
  simp [h _ j, ← Equiv.eq_symm_apply]

theorem Follows.apply_ne (h : Follows x σ) (i : Fin n) : σ i ≠ i := by
  intro hfix
  have hcell := h i i
  rw [cell_self, if_pos hfix] at hcell
  exact zero_ne_one hcell

theorem cell_eq_zero_or_one (hx : ∀ v ∈ x, v = 0 ∨ v = 1) (i j : Fin n) :
    cell x i j = 0 ∨ cell x i j = 1 := by
  rw [cell]
  split
  · exact .inl rfl
  · by_cases hlt : index i j < x.length
    · rw [List.getD_eq_getElem _ _ hlt]
      exact hx _ (List.getElem_mem _)
    · rw [List.getD_eq_default _ _ (by omega)]
      exact .inl rfl

theorem cell_integral (hx : ∀ v ∈ x, v = 0 ∨ v = 1) (i j : Fin n) :
    cell x i j ∈ (Int.castRingHom ℚ).range := by
  obtain h | h := cell_eq_zero_or_one hx i j
  · rw [h]
    exact zero_mem _
  · rw [h]
    exact one_mem _

theorem equations_integral (hx : ∀ v ∈ x, v = 0 ∨ v = 1) :
    ∀ e ∈ equations n x, e ∈ (Int.castRingHom ℚ).range := by
  intro e he
  obtain h | h := List.mem_append.mp he
  all_goals
    obtain ⟨i, -, rfl⟩ := List.mem_map.mp h
    exact sub_mem (sum_mem fun j _ => cell_integral hx _ _) (one_mem _)

/-- Where one arc leaves and one arc enters every city, the arcs are those along a permutation. -/
theorem exists_follows (hx : ∀ v ∈ x, v = 0 ∨ v = 1) (hrow : ∀ i : Fin n, ∑ j, cell x i j = 1)
    (hcolumn : ∀ j : Fin n, ∑ i, cell x i j = 1) : ∃ σ : Equiv.Perm (Fin n), Follows x σ := by
  choose next hnext using fun i => exists_of_sum_eq_one (cell_eq_zero_or_one hx i) (hrow i)
  have hinj : Function.Injective next := by
    intro i i' heq
    obtain ⟨k, hk⟩ := exists_of_sum_eq_one (fun i => cell_eq_zero_or_one hx i (next i')) (hcolumn _)
    have hentered : ∀ a, next a = next i' → k = a := by
      intro a ha
      have hcell := hk a
      rw [hnext, if_pos ha] at hcell
      by_contra hne
      rw [if_neg hne] at hcell
      exact one_ne_zero hcell
    rw [← hentered i heq, hentered i' rfl]
  exact ⟨Equiv.ofBijective next (Finite.injective_iff_bijective.mp hinj), hnext⟩

theorem equations_eq_zero_iff (hx : ∀ v ∈ x, v = 0 ∨ v = 1) :
    (∀ e ∈ equations n x, e = 0) ↔ ∃ σ : Equiv.Perm (Fin n), Follows x σ := by
  have hsums : (∀ e ∈ equations n x, e = 0) ↔
      (∀ i : Fin n, ∑ j, cell x i j = 1) ∧ ∀ j : Fin n, ∑ i, cell x i j = 1 := by
    simp [equations, or_imp, forall_and, sub_eq_zero]
  rw [hsums]
  constructor
  · rintro ⟨hrow, hcolumn⟩
    exact exists_follows hx hrow hcolumn
  · rintro ⟨σ, h⟩
    exact ⟨h.sum_row, h.sum_column⟩

theorem Follows.successor_eq (h : Follows x σ) (hx : n * (n - 1) ≤ x.length) :
    successor x = σ := by
  refine Arc.successor_eq fun i j hij => ?_
  rw [selected, getElem?_eq_cell hx hij, h i j]
  by_cases hj : σ i = j <;> simp [hj]

/-- The walk of a row along a permutation visits the iterates of the permutation. -/
theorem Follows.walk_eq (h : Follows x σ) (hx : n * (n - 1) ≤ x.length) (hn : 0 < n) :
    walk n x = .ok (List.iterate σ ⟨0, hn⟩ n) := by
  rw [Arc.walk_eq hx hn, h.successor_eq hx]

/-! ### Every arc counts once

The place of a pair of integers numbers the pairs that name different cities, in row-major order and
without a gap, and other pairs have no place.  So the arcs that leave the cities are all arcs, and
so are the arcs that enter them: each half of the equations adds up to the sum of the row less the
count of cities (`arcs_counted_once`). -/

variable {i' j' : Fin n} {p q : ℤ × ℤ}

/-! ### Pairs of integers -/

/-- The pairs of integers that name different cities. -/
def pairs (n : ℕ) : Set (ℤ × ℤ) :=
  {p | p.1 ≠ p.2 ∧ p.1 ∈ Set.Ico 0 (n : ℤ) ∧ p.2 ∈ Set.Ico 0 (n : ℤ)}

/-- The place of a pair of integers, zero if it has none. -/
def place (n : ℕ) (p : ℤ × ℤ) : ℤ := (index? p.1 p.2 n).toOption.getD 0

theorem mem_pairs_iff :
    p ∈ pairs n ↔ ∃ i j : Fin n, i ≠ j ∧ p = (((i : ℕ) : ℤ), ((j : ℕ) : ℤ)) := by
  constructor
  · obtain ⟨a, b⟩ := p
    rintro ⟨hne, ⟨ha, ha'⟩, hb, hb'⟩
    lift a to ℕ using ha
    lift b to ℕ using hb
    refine ⟨⟨a, Int.ofNat_lt.mp ha'⟩, ⟨b, Int.ofNat_lt.mp hb'⟩, ?_, rfl⟩
    intro heq
    exact hne (congrArg Nat.cast (Fin.val_eq_of_eq heq))
  · rintro ⟨i, j, hij, rfl⟩
    have hne : ((i : ℕ) : ℤ) ≠ ((j : ℕ) : ℤ) := Nat.cast_injective.ne (Fin.val_ne_of_ne hij)
    exact ⟨hne, ⟨Int.natCast_nonneg _, Int.ofNat_lt.mpr i.isLt⟩,
      Int.natCast_nonneg _, Int.ofNat_lt.mpr j.isLt⟩

theorem index?_of_not_mem (h : p ∉ pairs n) : index? p.1 p.2 n = .error .noArc := by
  rw [index?, if_neg]
  rintro ⟨hne, ha, ha', hb, hb'⟩
  exact h ⟨hne, ⟨ha, ha'⟩, hb, hb'⟩

theorem place_coe (h : i ≠ j) : place n (((i : ℕ) : ℤ), ((j : ℕ) : ℤ)) = (index i j : ℕ) := by
  rw [place, index?_coe h]
  rfl

theorem index?_of_mem (h : p ∈ pairs n) : index? p.1 p.2 n = .ok (place n p) := by
  obtain ⟨i, j, hij, rfl⟩ := mem_pairs_iff.mp h
  rw [place_coe hij, index?_coe hij]

/-- The places number the pairs without a gap. -/
theorem place_bijOn (n : ℕ) : Set.BijOn (place n) (pairs n) (Set.Ico 0 ((n : ℤ) * (n - 1))) := by
  -- The subtraction of natural numbers differs for no cities, where both products are zero.
  have hcount : (n : ℤ) * (n - 1) = ((n * (n - 1) : ℕ) : ℤ) := by
    cases n with
    | zero => rfl
    | succ m => simp
  rw [hcount]
  refine ⟨fun p hp => ?_, fun p hp q hq heq => ?_, fun k hk => ?_⟩
  · obtain ⟨i, j, hij, rfl⟩ := mem_pairs_iff.mp hp
    rw [place_coe hij]
    exact ⟨by omega, by exact_mod_cast index_lt hij⟩
  · obtain ⟨i, j, hij, rfl⟩ := mem_pairs_iff.mp hp
    obtain ⟨i', j', hij', rfl⟩ := mem_pairs_iff.mp hq
    rw [place_coe hij, place_coe hij', Nat.cast_inj] at heq
    obtain ⟨rfl, rfl⟩ := index_injective hij hij' heq
    rfl
  · obtain ⟨hk, hk'⟩ := hk
    lift k to ℕ using hk
    obtain ⟨i, j, hij, rfl⟩ := exists_index (n := n) (by exact_mod_cast hk')
    exact ⟨_, mem_pairs_iff.mpr ⟨i, j, hij, rfl⟩, place_coe hij⟩

theorem place_lt_place (hp : p ∈ pairs n) (hq : q ∈ pairs n) (hlt : toLex p < toLex q) :
    place n p < place n q := by
  obtain ⟨i, j, hij, rfl⟩ := mem_pairs_iff.mp hp
  obtain ⟨i', j', hij', rfl⟩ := mem_pairs_iff.mp hq
  rw [place_coe hij, place_coe hij', Nat.cast_lt]
  simp only [Prod.Lex.toLex_lt_toLex, Nat.cast_lt, Nat.cast_inj, Fin.val_fin_lt, Fin.val_inj] at hlt
  obtain hrow | ⟨rfl, hcolumn⟩ := hlt
  · exact index_lt_of_row_lt hij hrow
  · exact index_lt_of_column_lt hij hij' hcolumn

/-! ### Sums over all arcs -/

theorem nodup_arcs (n : ℕ) : (arcs n).Nodup :=
  (arcs_pairwise n).imp fun hlt heq => hlt.ne (by rw [heq])

/-- A row lists the entries of all arcs in order. -/
theorem map_cell_arcs (hx : x.length = n * (n - 1)) :
    (arcs n).map (fun a => cell x a.1 a.2) = x := by
  have hentry : (arcs n).map (fun a => cell x a.1 a.2) =
      ((arcs n).map fun a => index a.1 a.2).map fun k => x.getD k 0 := by
    rw [List.map_map]
    exact List.map_congr_left fun a ha => if_neg (mem_arcs.mp ha)
  rw [hentry, map_index_arcs, ← hx]
  exact List.ext_getElem (by simp) fun k _ hk => by simp [hk]

theorem sum_cell (hx : x.length = n * (n - 1)) : ∑ i : Fin n, ∑ j, cell x i j = x.sum := by
  -- The matrix has the diagonal that the row leaves out, and it is zero.
  have hdiagonal : ∀ a : Fin n × Fin n, a ∉ (arcs n).toFinset → cell x a.1 a.2 = 0 := by
    rintro ⟨i, j⟩ ha
    rw [List.mem_toFinset, mem_arcs, not_not] at ha
    rw [ha, cell_self]
  calc ∑ i : Fin n, ∑ j, cell x i j
      = ∑ a : Fin n × Fin n, cell x a.1 a.2 := (Fintype.sum_prod_type' _).symm
    _ = ∑ a ∈ (arcs n).toFinset, cell x a.1 a.2 :=
      (Finset.sum_subset (Finset.subset_univ _) fun a _ => hdiagonal a).symm
    _ = ((arcs n).map fun a => cell x a.1 a.2).sum := List.sum_toFinset _ (nodup_arcs n)
    _ = x.sum := by rw [map_cell_arcs hx]

theorem sum_map_sub_one (total : Fin n → ℚ) :
    ((List.finRange n).map fun i => total i - 1).sum = ∑ i, total i - n := by
  rw [← Fin.sum_univ_def, Finset.sum_sub_distrib]
  simp

theorem sum_take_equations (hx : x.length = n * (n - 1)) :
    ((equations n x).take n).sum = x.sum - n := by
  rw [equations, List.take_left' (by simp), sum_map_sub_one, sum_cell hx]

theorem sum_drop_equations (hx : x.length = n * (n - 1)) :
    ((equations n x).drop n).sum = x.sum - n := by
  rw [equations, List.drop_left' (by simp), sum_map_sub_one, Finset.sum_comm, sum_cell hx]

/-- The place of a pair of integers is defined exactly if they name different cities, and it is the
place where the entry of the arc between these cities stands.  Places number the pairs in row-major
order without a gap.  Of a row with an entry for every arc, the equations of the arcs that leave the
cities add up to the sum of the row less the count of cities, and so do the equations of the arcs
that enter them. -/
theorem arcs_counted_once (n : ℕ) :
    (∀ p, p ∉ pairs n → index? p.1 p.2 n = .error .noArc) ∧
    (∀ p ∈ pairs n, index? p.1 p.2 n = .ok (place n p)) ∧
    (∀ i j : Fin n, i ≠ j → place n (((i : ℕ) : ℤ), ((j : ℕ) : ℤ)) = (index i j : ℕ)) ∧
    Set.BijOn (place n) (pairs n) (Set.Ico 0 ((n : ℤ) * (n - 1))) ∧
    (∀ p ∈ pairs n, ∀ q ∈ pairs n, toLex p < toLex q → place n p < place n q) ∧
    ∀ x : List ℚ, x.length = n * (n - 1) →
      degree n x = .ok (equations n x) ∧ (equations n x).length = 2 * n ∧
      ((equations n x).take n).sum = x.sum - n ∧ ((equations n x).drop n).sum = x.sum - n := by
  refine ⟨fun p => index?_of_not_mem, fun p => index?_of_mem, fun i j => place_coe,
    place_bijOn n, fun p hp q hq => place_lt_place hp hq, fun x hx => ?_⟩
  exact ⟨degree_eq hx.ge, length_equations n x, sum_take_equations hx, sum_drop_equations hx⟩

/-- A row through three cities with fractions and a negative entry. -/
def skewRow : List ℚ := [2, -1 / 2, 0, 1 / 3, 5, 7]

theorem arcs_counted_once_skew : (2, 0) ∈ pairs 3 ∧ place 3 (2, 0) = 4 ∧
    index? 2 0 3 = .ok 4 ∧ index? 1 1 3 = .error .noArc ∧
    skewRow.length = 3 * (3 - 1) ∧ degree 3 skewRow = .ok (equations 3 skewRow) ∧
    ((equations 3 skewRow).take 3).sum = 65 / 6 ∧
    ((equations 3 skewRow).drop 3).sum = 65 / 6 := by
  obtain ⟨hother, hindex, hplace, -, -, hsums⟩ := arcs_counted_once 3
  have hpair : ((2, 0) : ℤ × ℤ) ∈ pairs 3 :=
    ⟨by decide, ⟨by decide, by decide⟩, by decide, by decide⟩
  have hfour : place 3 (2, 0) = 4 := hplace 2 0 (by decide)
  have htotal : skewRow.sum - (3 : ℕ) = 65 / 6 := by decide +kernel
  obtain ⟨hdegree, -, hleaving, hentering⟩ := hsums skewRow rfl
  exact ⟨hpair, hfour, hfour ▸ hindex (2, 0) hpair, hother (1, 1) fun h => h.1 rfl, rfl, hdegree,
    hleaving.trans htotal, hentering.trans htotal⟩

end CityTour.Arc
