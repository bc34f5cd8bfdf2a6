import Mathlib
import CityTour.Problem.Basic
import CityTour.Proofs.ClosedWalk
import CityTour.Proofs.Encoding.Decode
import CityTour.Proofs.Outcome

/-! What the score of a tour does not depend on, in exact arithmetic: the encoding of its
chromosome, the city from which it starts and, where every edge is as long as its reverse, the
direction.  The scan of another start looks at other windows, so it is the best of all stretches
that is compared: walks that retrace each other have the same. -/

namespace CityTour

variable {n : ℕ} {N : Network ℚ n} {c d : Fin n → Fin n}

namespace Network

/-- The legs of a walk are as long as the walk, wherever it starts. -/
theorem circuit_eq_sum (N : Network ℚ n) (c : Fin n → Fin n) :
    N.circuit c = ∑ i ∈ Finset.range n, N.legAt c i := by
  have hsum : ∀ m, (List.range m).foldl (fun total k => total + N.legAt c k) 0 =
      ∑ i ∈ Finset.range m, N.legAt c i := by
    intro m
    induction m with
    | zero => rfl
    | succ m ih =>
      rw [List.range_succ, List.foldl_append, ih, Finset.sum_range_succ]
      rfl
  exact hsum n

theorem circuit_turned (N : Network ℚ n) (c : Fin n → Fin n) (k : ℕ) :
    N.circuit (turned c k) = N.circuit c := by
  rw [circuit_eq_sum, circuit_eq_sum, ← Window.sum_Ico_period (N.legAt_add_size c) k,
    Finset.sum_Ico_eq_sum_range, Nat.add_sub_cancel_left]
  apply Finset.sum_congr rfl
  intro i _
  rw [legAt_turned, Nat.add_comm]

/-- A walk whose edges and cities count, of which no stretch exhausts the budget exactly and no
stretch through all cities is within the budget. -/
structure Tight (N : Network ℚ n) (c : Fin n → Fin n) : Prop where
  leg_pos : ∀ k < n, 0 < N.legAt c k
  value_pos : ∀ i, 0 < N.value i
  length_ne : ∀ s < n, ∀ k < n, N.stretchLength c s k ≠ N.budget
  round_gt : ∀ s < n, N.budget < N.stretchLength c s (n - 1)

/-- A walk of at least two cities that is retraced by a tight one is tight. -/
theorem Tight.of_retraces (h : N.Tight c) (hn : 2 ≤ n) (hcd : N.Retraces c d) : N.Tight d := by
  constructor
  · intro k hk
    obtain ⟨t, ht, -, hlength⟩ := hcd k hk 1 (by omega)
    rw [stretchLength_one, stretchLength_one] at hlength
    rw [← hlength]
    exact h.leg_pos t ht
  · exact h.value_pos
  · intro s hs k hk
    obtain ⟨t, ht, -, hlength⟩ := hcd s hs k hk
    rw [← hlength]
    exact h.length_ne t ht k hk
  · intro s hs
    obtain ⟨t, ht, -, hlength⟩ := hcd s hs (n - 1) (by omega)
    rw [← hlength]
    exact h.round_gt t ht

theorem Tight.leg_nonneg (h : N.Tight c) (k : ℕ) : 0 ≤ N.legAt c k := by
  rw [← legAt_mod]
  exact (h.leg_pos _ (Nat.mod_lt k N.size_pos)).le

/-- No stretch within the budget goes around a tight walk. -/
theorem Tight.not_round (h : N.Tight c) {l k : ℕ} (hl : l ≤ n)
    (hfits : 0 ≤ (N.stretch c l (l + k)).saved) : l + k + 1 ≠ l + n := by
  intro hround
  have hk : k = n - 1 := by omega
  rw [N.stretch_saved_mod c hl, sub_nonneg, hk] at hfits
  exact absurd (h.round_gt (l % n) (Nat.mod_lt l N.size_pos)) (not_lt.mpr hfits)

/-- The best window of a tight walk has the merit of a stretch within the budget, and no such
stretch has more. -/
theorem Tight.exists_best (h : N.Tight c) :
    ∃ w, N.bestWindow (Route.ofTour n (tourOf c)) = .ok w ∧
      (∃ s < n, ∃ k < n, N.stretchLength c s k ≤ N.budget ∧
        w.merit = toLex (N.stretchValue c s k, N.budget - N.stretchLength c s k)) ∧
      ∀ s < n, ∀ k < n, N.stretchLength c s k ≤ N.budget →
        toLex (N.stretchValue c s k, N.budget - N.stretchLength c s k) ≤ w.merit := by
  obtain ⟨w, hw, hattained, hbest⟩ := exists_bestWindow h.leg_nonneg
  refine ⟨w, hw, hattained, ?_⟩
  intro s hs k hk hfits
  have hsaved : 0 < (N.stretch c s (s + k)).saved :=
    sub_pos.mpr (lt_of_le_of_ne hfits (h.length_ne s hs k hk))
  obtain ⟨l, m, hl, hm, hover, hreach, hle⟩ := hbest s (s + k) hs (Nat.le_add_right s k) hsaved
  rw [← merit_stretch]
  rcases hreach with ⟨hleft, hright⟩ | hround
  · have hpart : (N.stretch c s (s + k)).merit ≤ (N.stretch c l (l + m)).merit :=
      Window.merit_stretch_le (fun i => h.value_pos (N.cityAt c i)) hleft hright
        (Nat.le_add_right s k)
    exact le_trans hpart hle
  · exact absurd hround (h.not_round hl hover)

/-- Walks that retrace each other have best windows of the same merit. -/
theorem Tight.exists_merit_eq (h : N.Tight c) (hn : 2 ≤ n) {w : Window ℚ}
    (hw : N.bestWindow (Route.ofTour n (tourOf c)) = .ok w) (hcd : N.Retraces c d)
    (hdc : N.Retraces d c) :
    ∃ v, N.bestWindow (Route.ofTour n (tourOf d)) = .ok v ∧ v.merit = w.merit := by
  obtain ⟨w', hw', ⟨s, hs, k, hk, hfits, hmerit⟩, hbest⟩ := h.exists_best
  obtain rfl : w = w' := Except.ok.inj (hw.symm.trans hw')
  obtain ⟨v, hv, ⟨s', hs', k', hk', hfits', hmerit'⟩, hbest'⟩ := (h.of_retraces hn hcd).exists_best
  refine ⟨v, hv, le_antisymm ?_ ?_⟩
  · obtain ⟨t, ht, hvalue, hlength⟩ := hcd s' hs' k' hk'
    rw [hmerit', ← hvalue, ← hlength]
    exact hbest t ht k' hk' (hlength.trans_le hfits')
  · obtain ⟨t, ht, hvalue, hlength⟩ := hdc s hs k hk
    rw [hmerit, ← hvalue, ← hlength]
    exact hbest' t ht k hk (hlength.trans_le hfits)

end Network

/-! ### Scores of tours -/

namespace Problem

open Encoding

theorem exists_readBack_eq (e : Encoding) (tour : List ℤ) :
    ∃ k, e.readBack tour = tour.rotate k := by
  cases e with
  | full => exact ⟨tour.idxOf 0, rfl⟩
  | randomKeys => exact ⟨0, (List.rotate_zero tour).symm⟩
  | cities => exact ⟨0, (List.rotate_zero tour).symm⟩

/-- The chromosome of a tour is read as the tour from some city on. -/
theorem exists_encode_decode (N : Network ℚ n) (e : Encoding) {tour : List ℤ}
    (h : IsTour n tour) : ∃ x k, (⟨n, N, e⟩ : Problem ℚ).encode tour = .ok x ∧
      (x.length : ℤ) = e.dimension n ∧
      (⟨n, N, e⟩ : Problem ℚ).decode x = .ok (tour.rotate k) := by
  obtain ⟨visits, hperm, rfl⟩ := isTour_iff.mp h
  obtain ⟨x, hencode, hlen, hdecode⟩ :=
    encode_numbers (α := ℚ) n.succ_pos e (.inr n.lt_succ_self) hperm
  obtain ⟨k, hk⟩ := exists_readBack_eq e (numbers visits)
  rw [hk] at hdecode
  exact ⟨x, k, hencode, hlen, hdecode⟩

/-- The chromosomes of a tour and of all its rotations are read as walks of one length. -/
theorem exists_length (N : Network ℚ n) (σ : Equiv.Perm (Fin n)) (e : Encoding) (k : ℕ) :
    ∃ x tour, (⟨n, N, e⟩ : Problem ℚ).encode ((tourOf σ).rotate k) = .ok x ∧
      (⟨n, N, e⟩ : Problem ℚ).decode x = .ok tour ∧
      N.closedLength (Route.ofTour n tour) = .ok (N.circuit σ) := by
  have htour : IsTour n ((tourOf σ).rotate k) :=
    (List.rotate_perm (tourOf σ) k).trans (isTour_tourOf σ)
  obtain ⟨x, j, hencode, -, hdecode⟩ := exists_encode_decode N e htour
  refine ⟨x, _, hencode, hdecode, ?_⟩
  rw [List.rotate_rotate, rotate_tourOf, N.closedLength_tourOf, N.circuit_turned]

/-- The score of the chromosome of a tour whose rotations all have a best window of one merit. -/
theorem exists_score (N : Network ℚ n) (e : Encoding) {tour : List ℤ} {value saved : ℚ}
    (htour : IsTour n tour) (h : ∀ k, ∃ w, N.bestWindow (Route.ofTour n (tour.rotate k)) = .ok w ∧
      w.merit = toLex (value, saved)) :
    ∃ x s, (⟨n, N, e⟩ : Problem ℚ).encode tour = .ok x ∧
      (⟨n, N, e⟩ : Problem ℚ).evaluate x = .ok s ∧ s.value = value ∧ s.saved = saved ∧
      s.fitness = (⟨n, N, .full⟩ : Problem ℚ).fitness value saved := by
  obtain ⟨x, k, hencode, hlen, hdecode⟩ := exists_encode_decode N e htour
  obtain ⟨w, hw, hmerit⟩ := h k
  have hturned : IsTour n (tour.rotate k) := (List.rotate_perm tour k).trans htour
  obtain ⟨length, hlength⟩ := N.exists_closedLength hturned.length_eq hturned.namesCities
  obtain ⟨b, hb⟩ := exists_feasible ⟨n, N, e⟩ (fun _ => hlen) 0
  obtain ⟨rfl, rfl⟩ : w.value = value ∧ w.saved = saved := Prod.ext_iff.mp (toLex.injective hmerit)
  exact ⟨x, _, hencode, scoreWith_ok ⟨n, N, e⟩ hdecode hw hlength hb, rfl, rfl, rfl⟩

/-- In exact arithmetic the chromosomes of a tour are read as walks of one length, whatever their
encoding and wherever the tour starts.  Their scores have the same value, the same budget left and
the same fitness if the walk is tight, also backward if every edge is as long as its reverse. -/
theorem evaluate_encode_invariant (N : Network ℚ n) (hn : 2 ≤ n) (σ : Equiv.Perm (Fin n)) :
    (∃ length, ∀ (e : Encoding) (k : ℕ), ∃ x tour,
      (⟨n, N, e⟩ : Problem ℚ).encode ((tourOf σ).rotate k) = .ok x ∧
      (⟨n, N, e⟩ : Problem ℚ).decode x = .ok tour ∧
      N.closedLength (Route.ofTour n tour) = .ok length) ∧
    (N.Tight σ → ∃ value saved fitness, ∀ (e : Encoding) (k : ℕ) (tour : List ℤ),
      tour = (tourOf σ).rotate k ∨
        (∀ i j, N.weight i j = N.weight j i) ∧ tour = (tourOf σ).reverse.rotate k →
      ∃ x s, (⟨n, N, e⟩ : Problem ℚ).encode tour = .ok x ∧
        (⟨n, N, e⟩ : Problem ℚ).evaluate x = .ok s ∧
        s.value = value ∧ s.saved = saved ∧ s.fitness = fitness) := by
  refine ⟨⟨N.circuit σ, exists_length N σ⟩, ?_⟩
  intro htight
  obtain ⟨w, hw, -, -⟩ := htight.exists_best
  refine ⟨w.value, w.saved, (⟨n, N, .full⟩ : Problem ℚ).fitness w.value w.saved, ?_⟩
  rintro e k tour (rfl | ⟨hsymm, rfl⟩)
  · apply exists_score N e ((List.rotate_perm _ k).trans (isTour_tourOf σ))
    intro j
    rw [List.rotate_rotate, rotate_tourOf]
    exact htight.exists_merit_eq hn hw (N.retraces_turned σ _) (N.turned_retraces σ _)
  · apply exists_score N e
      ((List.rotate_perm _ k).trans ((List.reverse_perm _).trans (isTour_tourOf σ)))
    intro j
    rw [List.rotate_rotate, reverse_tourOf, rotate_tourOf]
    have hforth := (N.retraces_backward σ hsymm).trans (N.retraces_turned (backward σ) (k + j))
    have hback := (N.turned_retraces (backward σ) (k + j)).trans (N.backward_retraces σ hsymm)
    exact htight.exists_merit_eq hn hw hforth hback

end Problem

/-- Four cities on a square of different sides, of which the budget covers any two. -/
def Network.square : Network ℚ 4 where
  weights :=
    { rows := #v[#v[0, 2, 9, 4], #v[2, 0, 3, 9], #v[9, 3, 0, 2], #v[4, 9, 2, 0]]
      size_pos := Nat.succ_pos 3
      diagonal := by decide +kernel
      defined := by decide +kernel
      nonzero := by decide +kernel }
  values := #v[4, 1, 3, 5]
  budget := 13 / 2
  budget_defined := Scalar.isUndefined_rational _
  budget_nonneg := by decide +kernel

/-- The square walked forward and written as cities, and backward and written as arcs. -/
theorem Problem.evaluate_encode_invariant_square : Network.square.Tight (Equiv.refl (Fin 4)) ∧
    ∃ x y s t, (⟨4, Network.square, .cities⟩ : Problem ℚ).encode [0, 1, 2, 3] = .ok x ∧
      (⟨4, Network.square, .full⟩ : Problem ℚ).encode [3, 2, 1, 0] = .ok y ∧
      (⟨4, Network.square, .cities⟩ : Problem ℚ).evaluate x = .ok s ∧
      (⟨4, Network.square, .full⟩ : Problem ℚ).evaluate y = .ok t ∧ s.fitness = t.fitness := by
  have htight : Network.square.Tight (Equiv.refl (Fin 4)) :=
    { leg_pos := by decide +kernel
      value_pos := by decide +kernel
      length_ne := by decide +kernel
      round_gt := by decide +kernel }
  obtain ⟨-, hscores⟩ := evaluate_encode_invariant Network.square (by decide) (Equiv.refl (Fin 4))
  obtain ⟨value, saved, fitness, hscores⟩ := hscores htight
  obtain ⟨x, s, hx, hs, -, -, hfitness⟩ := hscores .cities 0 [0, 1, 2, 3] (.inl (by decide))
  obtain ⟨y, t, hy, ht, -, -, hfitness'⟩ :=
    hscores .full 0 [3, 2, 1, 0] (.inr ⟨by decide +kernel, by decide⟩)
  exact ⟨htight, x, y, s, t, hx, hy, hs, ht, hfitness.trans hfitness'.symm⟩

end CityTour
