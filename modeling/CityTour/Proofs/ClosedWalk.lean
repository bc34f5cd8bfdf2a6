import Mathlib
import CityTour.Proofs.Arc.Circuit
import CityTour.Proofs.BestWindow

/-! Closed walks through a network: their length, and the walks that have the same stretches.
Adding up the legs by position, around the cycle, and adding them up from the walk and its rolled
copy is the same sum, also where an edge fails.  The tour of a closed walk has the sum of its legs
as its length. -/

namespace CityTour

variable {α : Type} [Scalar α]

/-- A walk zipped with its rolled copy lists the legs by position. -/
theorem zip_rolled {β : Type} (walk : List β) : walk.zip (walk.drop 1 ++ walk.take 1) =
    (List.finRange walk.length).map fun i =>
      (walk.get i, walk.get ⟨(i.val + 1) % walk.length, Nat.mod_lt _ i.pos⟩) := by
  rw [← Arc.rotate_one]
  apply List.ext_getElem
  · simp
  · intro k hk _
    simp [List.getElem_rotate]

theorem closedSum_eq_rolledSum {β : Type} (edge : β → β → Except Fault α) (walk : List β) :
    closedSum edge walk = rolledSum edge walk := by
  rw [rolledSum, zip_rolled, List.foldlM_map]
  rfl

namespace Network

variable {n : ℕ} (N : Network α n) (c : Fin n → Fin n)

/-- The legs of a closed walk added up from the first position on. -/
def circuit : α := (List.range n).foldl (fun total k => total + N.legAt c k) 0

/-- The legs of a closed walk by position. -/
theorem zip_rolled_walk : ((List.ofFn c).map Lookup.city).zip
      (((List.ofFn c).map Lookup.city).drop 1 ++ ((List.ofFn c).map Lookup.city).take 1) =
    (List.range n).map fun k => (.city (N.cityAt c k), .city (N.cityAt c (k + 1))) := by
  rw [← Arc.rotate_one]
  apply List.ext_getElem
  · simp
  · intro k hk _
    have hlt : k < n := by simpa using hk
    simp [List.getElem_rotate, cityAt, Nat.mod_eq_of_lt hlt]

theorem rolledSum_tourOf : rolledSum N.edge (Route.ofTour n (tourOf c)) = .ok (N.circuit c) := by
  rw [tourOf, Route.ofTour_numbers, rolledSum, N.zip_rolled_walk, List.foldlM_map]
  show (List.range n).foldlM (fun total k => (pure (total + N.legAt c k) : Except Fault α)) 0 = _
  rw [List.foldlM_pure]
  rfl

theorem closedLength_tourOf : N.closedLength (Route.ofTour n (tourOf c)) = .ok (N.circuit c) := by
  rw [closedLength, closedSum_eq_rolledSum, rolledSum_tourOf]

end Network

/-! ### Closed walks with the same stretches

`turned` starts a walk at another position and `backward` walks it the other way around.  A walk
retraces another if it has all of its stretches: a turned walk does, and so does a walk backward
where every edge is as long as its reverse. -/

variable {n : ℕ}

/-- A closed walk that starts `k` positions later. -/
def turned (c : Fin n → Fin n) (k : ℕ) : Fin n → Fin n := fun i =>
  c ⟨(i.val + k) % n, Nat.mod_lt _ i.pos⟩

/-- A closed walk from its last position to its first. -/
def backward (c : Fin n → Fin n) : Fin n → Fin n := fun i => c i.rev

theorem rotate_tourOf (c : Fin n → Fin n) (k : ℕ) : (tourOf c).rotate k = tourOf (turned c k) := by
  apply List.ext_getElem
  · simp [tourOf]
  · intro i _ _
    simp [tourOf, numbers, List.getElem_rotate, turned]

theorem reverse_tourOf (c : Fin n → Fin n) : (tourOf c).reverse = tourOf (backward c) := by
  apply List.ext_getElem
  · simp [tourOf]
  · intro i hi _
    have hlt : i < n := by simpa [tourOf] using hi
    simp [tourOf, numbers, backward, Fin.rev, Nat.add_comm, Nat.sub_sub]

theorem turned_turned (c : Fin n → Fin n) (j k : ℕ) : turned (turned c j) k = turned c (j + k) := by
  funext i
  simp [turned, Nat.add_assoc, Nat.add_comm k]

theorem turned_rounds (c : Fin n → Fin n) (m : ℕ) : turned c (m * n) = c := by
  funext i
  simp [turned, Nat.mod_eq_of_lt i.isLt]

theorem backward_backward (c : Fin n → Fin n) : backward (backward c) = c := by
  funext i
  simp [backward]

namespace Network

variable (N : Network ℚ n) (c : Fin n → Fin n)

theorem cityAt_turned (k i : ℕ) : N.cityAt (turned c k) i = N.cityAt c (i + k) := by
  simp [cityAt, turned]

theorem worthAt_turned (k i : ℕ) : N.worthAt (turned c k) i = N.worthAt c (i + k) := by
  rw [worthAt, cityAt_turned, worthAt]

theorem legAt_turned (k i : ℕ) : N.legAt (turned c k) i = N.legAt c (i + k) := by
  rw [legAt, cityAt_turned, cityAt_turned, legAt, Nat.add_right_comm]

/-- Two positions that make up whole rounds with the step between them are the same city, counted
from either end. -/
theorem cityAt_backward {a b m : ℕ} (h : a + b + 1 = m * n) :
    N.cityAt (backward c) a = N.cityAt c b := by
  have ha := Nat.div_add_mod a n
  have hb := Nat.div_add_mod b n
  have halt := Nat.mod_lt a N.size_pos
  have hblt := Nat.mod_lt b N.size_pos
  have hdvd : n ∣ a % n + b % n + 1 := by
    have hrounds : n ∣ n * (a / n) + n * (b / n) :=
      dvd_add (Nat.dvd_mul_right _ _) (Nat.dvd_mul_right _ _)
    rw [← Nat.dvd_add_right hrounds]
    exact ⟨m, by rw [Nat.mul_comm n m]; omega⟩
  have hround : a % n + b % n + 1 = n :=
    Nat.eq_of_dvd_of_lt_two_mul (Nat.succ_ne_zero _) hdvd (by omega)
  have hplace : n - (a % n + 1) = b % n := by omega
  simp only [cityAt, backward, Fin.rev, hplace]

theorem legAt_backward (hsymm : ∀ i j, N.weight i j = N.weight j i) {a b m : ℕ}
    (h : a + b + 2 = m * n) : N.legAt (backward c) a = N.legAt c b := by
  rw [legAt, N.cityAt_backward c (b := b + 1) (m := m) (by omega),
    N.cityAt_backward c (a := a + 1) (b := b) (m := m) (by omega), hsymm, legAt]

/-! ### Stretches by their first position -/

theorem stretchValue_eq_sum (s k : ℕ) :
    N.stretchValue c s k = ∑ i ∈ Finset.range (k + 1), N.worthAt c (s + i) := by
  rw [stretchValue, Finset.sum_Ico_eq_sum_range]
  congr 2
  omega

theorem stretchLength_eq_sum (s k : ℕ) :
    N.stretchLength c s k = ∑ i ∈ Finset.range k, N.legAt c (s + i) := by
  rw [stretchLength, Finset.sum_Ico_eq_sum_range]
  congr 2
  omega

theorem stretchValue_mod (s k : ℕ) : N.stretchValue c (s % n) k = N.stretchValue c s k := by
  rw [stretchValue_eq_sum, stretchValue_eq_sum]
  simp [worthAt, cityAt]

theorem stretchLength_mod (s k : ℕ) : N.stretchLength c (s % n) k = N.stretchLength c s k := by
  rw [stretchLength_eq_sum, stretchLength_eq_sum]
  simp [legAt, cityAt, Nat.add_assoc]

theorem stretchLength_one (s : ℕ) : N.stretchLength c s 1 = N.legAt c s := by
  rw [stretchLength_eq_sum, Finset.sum_range_one, Nat.add_zero]

/-! ### Retraced walks -/

/-- Every stretch of the second walk has the value and the length of a stretch of the first walk
over as many edges. -/
def Retraces (c d : Fin n → Fin n) : Prop := ∀ s < n, ∀ k < n, ∃ t < n,
  N.stretchValue c t k = N.stretchValue d s k ∧ N.stretchLength c t k = N.stretchLength d s k

variable {N c} {d e : Fin n → Fin n}

theorem Retraces.trans (hcd : N.Retraces c d) (hde : N.Retraces d e) : N.Retraces c e := by
  intro s hs k hk
  obtain ⟨t, ht, hvalue, hlength⟩ := hde s hs k hk
  obtain ⟨u, hu, hvalue', hlength'⟩ := hcd t ht k hk
  exact ⟨u, hu, hvalue'.trans hvalue, hlength'.trans hlength⟩

/-- The position of the stretch may be counted around the cycle. -/
theorem retraces_of_forall (h : ∀ s < n, ∀ k < n, ∃ t,
    N.stretchValue c t k = N.stretchValue d s k ∧ N.stretchLength c t k = N.stretchLength d s k) :
    N.Retraces c d := by
  intro s hs k hk
  obtain ⟨t, hvalue, hlength⟩ := h s hs k hk
  refine ⟨t % n, Nat.mod_lt t N.size_pos, ?_, ?_⟩
  · rw [stretchValue_mod, hvalue]
  · rw [stretchLength_mod, hlength]

variable (N c)

theorem retraces_turned (k : ℕ) : N.Retraces c (turned c k) := by
  apply retraces_of_forall
  intro s _ m _
  refine ⟨s + k, ?_, ?_⟩
  · rw [stretchValue_eq_sum, stretchValue_eq_sum]
    apply Finset.sum_congr rfl
    intro i _
    rw [worthAt_turned, Nat.add_right_comm]
  · rw [stretchLength_eq_sum, stretchLength_eq_sum]
    apply Finset.sum_congr rfl
    intro i _
    rw [legAt_turned, Nat.add_right_comm]

theorem turned_retraces (k : ℕ) : N.Retraces (turned c k) c := by
  -- Turned on, the walk starts at its first position again.
  obtain ⟨m, hm⟩ := Nat.exists_eq_succ_of_ne_zero N.size_pos.ne'
  have hsum : k + m * k = k * n := by
    rw [hm, Nat.mul_succ, Nat.mul_comm, Nat.add_comm]
  have hround : turned (turned c k) (m * k) = c := by
    rw [turned_turned, hsum, turned_rounds]
  have h := N.retraces_turned (turned c k) (m * k)
  rwa [hround] at h

theorem retraces_backward (hsymm : ∀ i j, N.weight i j = N.weight j i) :
    N.Retraces c (backward c) := by
  apply retraces_of_forall
  intro s hs k hk
  refine ⟨2 * n - 1 - s - k, ?_, ?_⟩
  · rw [stretchValue_eq_sum, stretchValue_eq_sum, ← Finset.sum_range_reflect]
    apply Finset.sum_congr rfl
    intro i hi
    have hik := Finset.mem_range.mp hi
    have hcity := N.cityAt_backward c (a := s + i) (b := 2 * n - 1 - s - k + (k + 1 - 1 - i))
      (m := 2) (by omega)
    rw [worthAt, worthAt, hcity]
  · rw [stretchLength_eq_sum, stretchLength_eq_sum, ← Finset.sum_range_reflect]
    apply Finset.sum_congr rfl
    intro i hi
    have hik := Finset.mem_range.mp hi
    exact (N.legAt_backward c hsymm (m := 2) (by omega)).symm

theorem backward_retraces (hsymm : ∀ i j, N.weight i j = N.weight j i) :
    N.Retraces (backward c) c := by
  have h := N.retraces_backward (backward c) hsymm
  rwa [backward_backward] at h

end Network

end CityTour
