import Mathlib
import CityTour.Problem.Basic
import CityTour.Proofs.Arc.Order
import CityTour.Proofs.BestWindow
import CityTour.Proofs.Encoding.RoundTrip

/-! The constraints on arcs as a test for tours, in exact arithmetic.  For a row of zeros and ones
the equations hold along the permutations of the cities, and the inequalities leave of these the
ones with a single cycle, which are the chromosomes of tours.  All entries are integers, so any
tolerance below one tests the same. -/

namespace CityTour

namespace Arc

open Encoding

variable {n : ℕ} {x : List ℚ} {visits : List (Fin n)} {σ : Equiv.Perm (Fin n)} {a : Fin n}

/-- The row of a tour follows the cycle along the tour. -/
theorem follows_arcsOf (h : visits.Perm (List.finRange n)) (hn : 2 ≤ n) :
    Follows (arcsOf n (numbers visits)) visits.formPerm := by
  have hnodup := nodup_of_perm_finRange h
  intro i j
  by_cases hij : i = j
  · subst hij
    have hmem := mem_of_perm_finRange h i
    have hlen : 2 ≤ visits.length := by rwa [length_of_perm_finRange h]
    rw [cell_self, if_neg ((visits.formPerm_apply_mem_ne_self_iff hnodup i hmem).mpr hlen)]
  · have hentry := getElem?_arcsOf (α := ℚ) h hij
    rw [getElem?_eq_cell (length_arcsOf visits).ge hij] at hentry
    exact Option.some.inj hentry

/-- A row that follows the cycle along a tour is the row of the tour. -/
theorem Follows.eq_arcsOf (h : Follows x visits.formPerm) (hx : x.length = n * (n - 1))
    (hperm : visits.Perm (List.finRange n)) : x = arcsOf n (numbers visits) := by
  refine eq_of_arcs hx (length_arcsOf visits) fun i j hij => ?_
  rw [getElem?_eq_cell hx.ge hij, getElem?_arcsOf hperm hij, h]

theorem isTour_iterate_iff : IsTour n (numbers (List.iterate σ a n)) ↔
    ∀ c, c ∈ List.iterate σ a n := by
  rw [isTour_numbers_iff]
  exact ⟨mem_of_perm_finRange, iterate_perm⟩

/-- A row whose walk visits every city is the row of the walk. -/
theorem Follows.arcsOf_iterate (h : Follows x σ) (hx : x.length = n * (n - 1))
    (hall : ∀ c, c ∈ List.iterate σ a n) : arcsOf n (numbers (List.iterate σ a n)) = x :=
  (Follows.eq_arcsOf (by rwa [formPerm_iterate hall]) hx (iterate_perm hall)).symm

/-- Of the rows along permutations, those of tours are the ones whose walk visits every city. -/
theorem Follows.exists_encode_iff (h : Follows x σ) (hx : x.length = n * (n - 1)) (hn : 0 < n) :
    (∃ tour, IsTour n tour ∧ full.encode n tour = .ok x) ↔
      ∀ c, c ∈ List.iterate σ ⟨0, hn⟩ n := by
  rw [exists_encode_full_iff]
  constructor
  · rintro ⟨visits, hperm, rfl⟩ c
    have hwalk := (h.walk_eq hx.ge hn).symm.trans (walk_arcsOf hperm hn)
    rw [Except.ok.inj hwalk, List.mem_rotate]
    exact mem_of_perm_finRange hperm c
  · intro hall
    exact ⟨_, iterate_perm hall, h.arcsOf_iterate hx hall⟩

theorem Follows.tfae (h : Follows x σ) (hx : x.length = n * (n - 1)) (hn : 0 < n)
    (hwalk : walk n x = .ok visits) :
    List.TFAE [∀ e ∈ inequalities x (labelsOf visits), e ≤ 0, IsTour n (numbers visits),
      ∃ tour, IsTour n tour ∧ full.encode n tour = .ok x] := by
  obtain rfl := Except.ok.inj ((h.walk_eq hx.ge hn).symm.trans hwalk)
  tfae_have 1 ↔ 2 := (h.inequalities_nonpos_iff hn).trans isTour_iterate_iff.symm
  tfae_have 3 ↔ 2 := (h.exists_encode_iff hx hn).trans isTour_iterate_iff.symm
  tfae_finish

theorem Follows.encode_walk (h : Follows x σ) (hx : x.length = n * (n - 1)) (hn : 0 < n)
    (hwalk : walk n x = .ok visits) (htour : IsTour n (numbers visits)) :
    full.encode n (numbers visits) = .ok x := by
  obtain rfl := Except.ok.inj ((h.walk_eq hx.ge hn).symm.trans hwalk)
  rw [encode_full (isTour_numbers_iff.mp htour),
    h.arcsOf_iterate hx (isTour_iterate_iff.mp htour)]

/-- Of the rows of zeros and ones, the constraints hold for those of tours. -/
theorem constraints_hold_iff (hx : x.length = n * (n - 1)) (hbinary : ∀ v ∈ x, v = 0 ∨ v = 1)
    (hn : 2 ≤ n) (hwalk : walk n x = .ok visits) :
    ((∀ e ∈ equations n x, e = 0) ∧ ∀ e ∈ inequalities x (labelsOf visits), e ≤ 0) ↔
      ∃ tour, IsTour n tour ∧ full.encode n tour = .ok x := by
  have hpos : 0 < n := Nat.zero_lt_of_lt hn
  constructor
  · rintro ⟨heq, hineq⟩
    obtain ⟨σ, h⟩ := (equations_eq_zero_iff hbinary).mp heq
    exact ((h.tfae hx hpos hwalk).out 0 2).mp hineq
  · intro htours
    obtain ⟨cycle, hperm, rfl⟩ := exists_encode_full_iff.mp htours
    have h := follows_arcsOf hperm hn
    exact ⟨(equations_eq_zero_iff hbinary).mpr ⟨_, h⟩, ((h.tfae hx hpos hwalk).out 0 2).mpr htours⟩

/-- A walk that is a tour starts at the first city and labels the cities in its order. -/
theorem labels_of_isTour (hx : x.length = n * (n - 1)) (hn : 0 < n)
    (hwalk : walk n x = .ok visits) (htour : IsTour n (numbers visits)) :
    (numbers visits).head? = some 0 ∧ ∀ k < n, ∃ c : Fin n,
      (numbers visits)[k]? = some ((c : ℕ) : ℤ) ∧ (labelsOf visits)[c] = k + 1 := by
  have hperm := isTour_numbers_iff.mp htour
  have hnodup := nodup_of_perm_finRange hperm
  have hlen := length_of_perm_finRange hperm
  constructor
  · obtain rfl := Except.ok.inj ((walk_eq hx.ge hn).symm.trans hwalk)
    obtain ⟨m, rfl⟩ : ∃ m, n = m + 1 := ⟨n - 1, by omega⟩
    rfl
  · intro k hk
    have hlt : k < visits.length := hk.trans_eq hlen.symm
    refine ⟨visits[k], ?_, labelsOf_getElem hnodup hlt⟩
    rw [numbers, List.getElem?_map, List.getElem?_eq_getElem hlt]
    rfl

/-- The values of the constraints of a row, under the labels of its walk. -/
theorem constraints_eq {u : Vector ℕ n} (hx : n * (n - 1) ≤ x.length) (hn : 0 < n)
    (hu : labels n x = .ok u) : constraints n x = .ok (equations n x ++ inequalities x u) := by
  rw [constraints, degree_eq hx, subtour_eq hx hn hu]
  rfl

end Arc

namespace Encoding

/-- An integer within a tolerance below one of zero is zero. -/
theorem abs_le_iff_eq_zero {e t : ℚ} (he : e ∈ (Int.castRingHom ℚ).range) (h0 : 0 ≤ t)
    (h1 : t < 1) : |e| ≤ t ↔ e = 0 := by
  obtain ⟨z, rfl⟩ := he
  constructor
  · intro hle
    have hlt : |(z : ℚ)| < 1 := hle.trans_lt h1
    have hz : z = 0 := Int.abs_lt_one_iff.mp (by exact_mod_cast hlt)
    rw [hz, map_zero]
  · intro hzero
    rwa [hzero, abs_zero]

/-- An integer up to a tolerance below one is not positive. -/
theorem le_iff_nonpos {e t : ℚ} (he : e ∈ (Int.castRingHom ℚ).range) (h0 : 0 ≤ t) (h1 : t < 1) :
    e ≤ t ↔ e ≤ 0 := by
  obtain ⟨z, rfl⟩ := he
  refine ⟨fun hle => ?_, fun hle => hle.trans h0⟩
  have hlt : (z : ℚ) < 1 := hle.trans_lt h1
  have hz : z < 1 := by exact_mod_cast hlt
  show (z : ℚ) ≤ 0
  exact_mod_cast Int.lt_add_one_iff.mp hz

/-- The equations come first, and as many inequalities as are told. -/
theorem withinTolerance_append {α : Type} [Scalar α] {equations inequalities : List α} {k : ℕ}
    (hk : inequalities.length = k) (t : α) : withinTolerance k t (equations ++ inequalities) =
      (equations.all (fun e => decide (Scalar.magnitude e ≤ t)) &&
        inequalities.all fun e => decide (e ≤ t)) := by
  have hcount : (((equations ++ inequalities).length : ℤ) - k).toNat = equations.length := by
    rw [List.length_append, hk]
    omega
  rw [withinTolerance, hcount, List.take_left, List.drop_left]

/-- For integers, any tolerance below one tests the same as none. -/
theorem withinTolerance_iff {equations inequalities : List ℚ} {k : ℕ} {t : ℚ}
    (hk : inequalities.length = k) (heq : ∀ e ∈ equations, e ∈ (Int.castRingHom ℚ).range)
    (hineq : ∀ e ∈ inequalities, e ∈ (Int.castRingHom ℚ).range) (h0 : 0 ≤ t) (h1 : t < 1) :
    withinTolerance k t (equations ++ inequalities) = true ↔
      (∀ e ∈ equations, e = 0) ∧ ∀ e ∈ inequalities, e ≤ 0 := by
  rw [withinTolerance_append hk]
  simp only [Bool.and_eq_true, List.all_eq_true, decide_eq_true_eq, Scalar.magnitude_rational]
  refine and_congr (forall₂_congr fun e he => ?_) (forall₂_congr fun e he => ?_)
  · exact abs_le_iff_eq_zero (heq e he) h0 h1
  · exact le_iff_nonpos (hineq e he) h0 h1

theorem constraints_full {α : Type} [Scalar α] {n : ℕ} {x : List α}
    (hx : x.length = n * (n - 1)) : full.constraints n x = Arc.constraints n x := by
  rw [constraints, checkSize_of_length (by rw [hx, dimension_full]), size_natCast]
  rfl

end Encoding

namespace Problem

open Encoding

variable {x : List ℚ} {t : ℚ}

section Arcs

variable {p : Problem ℚ} {visits : List (Fin p.size)} (hfull : p.encoding = .full)
  (hlen : x.length = p.size * (p.size - 1))

include hfull hlen

theorem decode_of_walk (hwalk : Arc.walk p.size x = .ok visits) :
    p.decode x = .ok (numbers visits) := by
  rw [decode, hfull, Encoding.decode_of_walk hlen hwalk]

theorem constraints_of_walk (hn : 0 < p.size) (hwalk : Arc.walk p.size x = .ok visits) :
    p.constraints x =
      .ok (Arc.equations p.size x ++ Arc.inequalities x (Arc.labelsOf visits)) := by
  rw [constraints, hfull, constraints_full hlen,
    Arc.constraints_eq hlen.ge hn (Arc.labels_of_walk hwalk)]

theorem feasible_of_walk (hn : 0 < p.size) (hwalk : Arc.walk p.size x = .ok visits) :
    p.feasible x t = .ok (withinTolerance ((p.size - 1) * (p.size - 2) : ℕ) t
      (Arc.equations p.size x ++ Arc.inequalities x (Arc.labelsOf visits))) := by
  have hcount : (full.constraintDimensions p.size).2 = ((p.size - 1) * (p.size - 2) : ℕ) :=
    Arc.innerCount_natCast hn
  rw [feasible, constraints_of_walk hfull hlen hn hwalk, hfull, hcount]
  rfl

variable (hn : 2 ≤ p.size) (hx : ∀ v ∈ x, v = 0 ∨ v = 1)

include hn hx

/-- If the equations on arcs hold, the inequalities hold exactly if the arcs are read as a tour, and
exactly if they are the chromosome of one. -/
theorem tfae_of_equations {equations inequalities : List ℚ} {tour : List ℤ}
    (hdegree : Arc.degree p.size x = .ok equations)
    (hsubtour : Arc.subtour p.size x = .ok inequalities) (hdecode : p.decode x = .ok tour)
    (heq : ∀ e ∈ equations, e = 0) :
    List.TFAE [∀ e ∈ inequalities, e ≤ 0, IsTour p.size tour,
      ∃ tour', IsTour p.size tour' ∧ p.encode tour' = .ok x] := by
  have hpos : 0 < p.size := Nat.zero_lt_of_lt hn
  obtain ⟨visits, hwalk⟩ := Arc.exists_walk hlen.ge hpos
  obtain rfl := Except.ok.inj ((Arc.degree_eq hlen.ge).symm.trans hdegree)
  obtain rfl := Except.ok.inj
    ((Arc.subtour_eq hlen.ge hpos (Arc.labels_of_walk hwalk)).symm.trans hsubtour)
  obtain rfl := Except.ok.inj ((decode_of_walk hfull hlen hwalk).symm.trans hdecode)
  obtain ⟨σ, h⟩ := (Arc.equations_eq_zero_iff hx).mp heq
  simp only [encode, hfull]
  exact h.tfae hlen hpos hwalk

variable (h0 : 0 ≤ t) (h1 : t < 1)

include h0 h1

/-- On zeros and ones every entry of the constraints is an integer, so the tolerance is no matter.
-/
theorem feasible_iff_hold (hwalk : Arc.walk p.size x = .ok visits) :
    p.feasible x t = .ok true ↔ (∀ e ∈ Arc.equations p.size x, e = 0) ∧
      ∀ e ∈ Arc.inequalities x (Arc.labelsOf visits), e ≤ 0 := by
  rw [feasible_of_walk hfull hlen (Nat.zero_lt_of_lt hn) hwalk, Except.ok.injEq]
  exact withinTolerance_iff (Arc.length_inequalities x (Arc.labelsOf visits))
    (Arc.equations_integral hx) (Arc.inequalities_integral hx _) h0 h1

/-- The constraints on arcs accept exactly the chromosomes of tours. -/
theorem feasible_iff_exists_encode : p.feasible x t = .ok true ↔
    ∃ tour, IsTour p.size tour ∧ p.encode tour = .ok x := by
  obtain ⟨visits, hwalk⟩ := Arc.exists_walk hlen.ge (Nat.zero_lt_of_lt hn)
  rw [feasible_iff_hold hfull hlen hn hx h0 h1 hwalk, Arc.constraints_hold_iff hlen hx hn hwalk]
  simp only [encode, hfull]

/-- A chromosome that is accepted is read from the first city on, it is the chromosome of the tour
that is read, and the labels number the cities in the order of that tour. -/
theorem read_of_feasible {tour : List ℤ} {u : Vector ℕ p.size}
    (haccepted : p.feasible x t = .ok true) (hdecode : p.decode x = .ok tour)
    (hlabels : Arc.labels p.size x = .ok u) :
    tour.head? = some 0 ∧ p.encode tour = .ok x ∧
      ∀ k < p.size, ∃ c : Fin p.size, tour[k]? = some (c : ℤ) ∧ u[c] = k + 1 := by
  have hpos : 0 < p.size := Nat.zero_lt_of_lt hn
  obtain ⟨visits, hwalk⟩ := Arc.exists_walk hlen.ge hpos
  obtain rfl := Except.ok.inj ((decode_of_walk hfull hlen hwalk).symm.trans hdecode)
  obtain rfl := Except.ok.inj ((Arc.labels_of_walk hwalk).symm.trans hlabels)
  obtain ⟨heq, hineq⟩ := (feasible_iff_hold hfull hlen hn hx h0 h1 hwalk).mp haccepted
  obtain ⟨σ, h⟩ := (Arc.equations_eq_zero_iff hx).mp heq
  have htour := ((h.tfae hlen hpos hwalk).out 0 1).mp hineq
  obtain ⟨hhead, hnumbered⟩ := Arc.labels_of_isTour hlen hpos hwalk htour
  rw [encode, hfull]
  exact ⟨hhead, h.encode_walk hlen hpos hwalk htour, hnumbered⟩

end Arcs

/-- The constraints on arcs accept exactly the chromosomes of tours.  If the equations hold, the
inequalities hold exactly if the arcs are read as a tour, and exactly if they are the chromosome of
one.  A chromosome that is accepted is read from the first city on, it is the chromosome of the tour
that is read, and the labels number the cities in the order of that tour. -/
theorem feasible_iff_tour (p : Problem ℚ) (hfull : p.encoding = .full) (hn : 2 ≤ p.size)
    (hlen : x.length = p.size * (p.size - 1)) (hx : ∀ v ∈ x, v = 0 ∨ v = 1) (h0 : 0 ≤ t)
    (h1 : t < 1) :
    ∃ (equations inequalities : List ℚ) (tour : List ℤ) (u : Vector ℕ p.size) (accepted : Bool),
      Arc.degree p.size x = .ok equations ∧ equations.length = 2 * p.size ∧
      Arc.subtour p.size x = .ok inequalities ∧
      p.constraints x = .ok (equations ++ inequalities) ∧
      p.decode x = .ok tour ∧ Arc.labels p.size x = .ok u ∧ p.feasible x t = .ok accepted ∧
      (accepted = true ↔ ∃ tour', IsTour p.size tour' ∧ p.encode tour' = .ok x) ∧
      ((∀ e ∈ equations, e = 0) → List.TFAE [∀ e ∈ inequalities, e ≤ 0, IsTour p.size tour,
        ∃ tour', IsTour p.size tour' ∧ p.encode tour' = .ok x]) ∧
      (accepted = true → tour.head? = some 0 ∧ p.encode tour = .ok x ∧
        ∀ k < p.size, ∃ c : Fin p.size, tour[k]? = some (c : ℤ) ∧ u[c] = k + 1) := by
  have hpos : 0 < p.size := Nat.zero_lt_of_lt hn
  obtain ⟨visits, hwalk⟩ := Arc.exists_walk hlen.ge hpos
  have hdegree := Arc.degree_eq (n := p.size) hlen.ge
  have hlabels := Arc.labels_of_walk hwalk
  have hsubtour := Arc.subtour_eq hlen.ge hpos hlabels
  have hdecode := decode_of_walk hfull hlen hwalk
  have hfeasible := feasible_of_walk (t := t) hfull hlen hpos hwalk
  have haccepted := feasible_iff_exists_encode hfull hlen hn hx h0 h1
  rw [hfeasible, Except.ok.injEq] at haccepted
  refine ⟨Arc.equations p.size x, Arc.inequalities x (Arc.labelsOf visits), numbers visits,
    Arc.labelsOf visits, _, hdegree, Arc.length_equations p.size x, hsubtour,
    constraints_of_walk hfull hlen hpos hwalk, hdecode, hlabels, hfeasible, haccepted,
    tfae_of_equations hfull hlen hn hx hdegree hsubtour hdecode, fun h => ?_⟩
  exact read_of_feasible hfull hlen hn hx h0 h1 (hfeasible.trans (congrArg _ h)) hdecode hlabels

/-- The tour along the ring from the first city on, written as arcs. -/
def ringRow : List ℚ := [0, 1, 0, 1, 0, 0, 0, 0, 1, 0, 1, 0]

/-- The ring with tours written as arcs. -/
def ringProblem : Problem ℚ := ⟨4, Network.ring 7, .full⟩

/-- The ring is accepted within a tolerance, and the last city of its tour has the last label. -/
theorem feasible_iff_tour_ring :
    (∀ v ∈ ringRow, v = 0 ∨ v = 1) ∧ ringProblem.feasible ringRow (1 / 2) = .ok true ∧
    ∃ (tour : List ℤ) (u : Vector ℕ 4), ringProblem.decode ringRow = .ok tour ∧
      Arc.labels 4 ringRow = .ok u ∧
      ∃ c : Fin 4, tour[3]? = some ((c : ℕ) : ℤ) ∧ u[c] = 4 := by
  have hbinary : ∀ v ∈ ringRow, v = 0 ∨ v = 1 := by decide +kernel
  obtain ⟨-, -, tour, u, accepted, -, -, -, -, hdecode, hlabels, hfeasible, hiff, -, hread⟩ :=
    feasible_iff_tour ringProblem rfl (by decide) rfl hbinary (by decide +kernel : 0 ≤ (1 / 2 : ℚ))
      (by decide +kernel)
  have hencode : ringProblem.encode [0, 2, 3, 1] = .ok ringRow :=
    encode_full (show [(0 : Fin 4), 2, 3, 1].Perm (List.finRange 4) by decide)
  have haccepted : accepted = true := hiff.mpr ⟨[0, 2, 3, 1], by decide, hencode⟩
  obtain ⟨-, -, hnumbered⟩ := hread haccepted
  exact ⟨hbinary, haccepted ▸ hfeasible, tour, u, hdecode, hlabels, hnumbered 3 (by decide)⟩

end Problem

end CityTour
