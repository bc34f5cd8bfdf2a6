import Mathlib
import CityTour.Proofs.Account
import CityTour.Proofs.Dependence

/-! The value of the best window as a function of the budget and of the values of the cities, in
exact arithmetic.  A greater budget changes the course of the scan, so the two best windows are
compared as optima: the best one under the smaller budget is shorter than the greater budget.
Greater values do not change the course, and the windows are compared one by one. -/

namespace CityTour.Network

open Window

variable {n : ℕ} {N M : Network ℚ n} {c : Fin n → Fin n}

/-- Along a closed walk both networks have a best window, and that of the first is worth no more
than that of the second. -/
def NoBetter (N M : Network ℚ n) (c : Fin n → Fin n) : Prop :=
  ∃ w z, N.bestWindow (Route.ofTour n (tourOf c)) = .ok w ∧
    M.bestWindow (Route.ofTour n (tourOf c)) = .ok z ∧ w.value ≤ z.value

theorem legAt_congr (hweights : M.weights = N.weights) : M.legAt c = N.legAt c := by
  funext k
  rw [legAt, legAt, weight, weight, hweights]
  rfl

theorem noBetter_refl (N : Network ℚ n) (c : Fin n → Fin n) : N.NoBetter N c := by
  obtain ⟨ws, hscan, -⟩ := N.scan_stretches c
  exact ⟨_, _, bestWindow_of_scan hscan, bestWindow_of_scan hscan, le_rfl⟩

theorem noBetter_of_budget_le (hweights : M.weights = N.weights) (hvalues : M.values = N.values)
    (hbudget : N.budget ≤ M.budget) (hleg : ∀ k < n, 0 ≤ N.legAt c k)
    (hvalue : ∀ i, 0 ≤ N.value i) : N.NoBetter M c := by
  rcases hbudget.eq_or_lt with heq | hlt
  · obtain rfl : M = N := by
      cases M
      cases N
      simp_all
    exact noBetter_refl M c
  have hleg' : ∀ k, 0 ≤ N.legAt c k := fun k =>
    N.legAt_mod c k ▸ hleg _ (Nat.mod_lt k N.size_pos)
  have hlegs : M.legAt c = N.legAt c := legAt_congr hweights
  have hworths : M.worthAt c = N.worthAt c := by
    funext k
    rw [worthAt, worthAt, value, value, hvalues]
    rfl
  obtain ⟨w, hw, ⟨s, hs, k, hk, hfits, hmerit⟩, -⟩ := exists_bestWindow hleg'
  obtain ⟨z, hz, -, hbest⟩ := exists_bestWindow (hlegs ▸ hleg')
  -- The best window under the smaller budget leaves some of the greater one.
  have hspare : 0 < (M.stretch c s (s + k)).saved := by
    have hlength : M.stretchLength c s k = N.stretchLength c s k := by
      rw [stretchLength, stretchLength, hlegs]
    show 0 < M.budget - M.stretchLength c s k
    rw [hlength]
    exact sub_pos.mpr (hfits.trans_lt hlt)
  obtain ⟨l, m, -, -, -, hreach, hle⟩ := hbest s (s + k) hs (Nat.le_add_right s k) hspare
  refine ⟨w, z, hw, hz, ?_⟩
  calc w.value = N.stretchValue c s k := congrArg Prod.fst (toLex.injective hmerit)
    _ = (M.stretch c s (s + k)).value := by rw [stretchValue, ← hworths]; rfl
    _ ≤ (M.stretch c l (l + m)).value :=
        hreach.value_le (M.worthAt_add_size c) (fun i => by rw [hworths]; exact hvalue _) (by omega)
    _ ≤ z.value := value_le_of_merit_le hle

theorem noBetter_of_value_le (hweights : M.weights = N.weights) (hbudget : M.budget = N.budget)
    (hvalue : ∀ i, N.value i ≤ M.value i) : N.NoBetter M c := by
  obtain ⟨ws, hscan, -, hlisted⟩ := N.scan_stretches c
  obtain ⟨zs, hscan', -, hlisted'⟩ := M.scan_stretches c
  obtain ⟨ws', zs', hws, hzs, houtline⟩ := outline_windows (c := c) (d := c) hbudget.symm
    (legAt_congr hweights).symm
  obtain rfl := Except.ok.inj ((windows_of_scan hscan).symm.trans hws)
  obtain rfl := Except.ok.inj ((windows_of_scan hscan').symm.trans hzs)
  refine ⟨_, _, bestWindow_of_scan hscan, bestWindow_of_scan hscan', ?_⟩
  -- The second network lists a window with the ends of the best one of the first.
  have hbest := best_mem (N.stretch c 0 0) ws
  obtain ⟨z, hz, hends⟩ := List.mem_map.mp (houtline ▸ List.mem_map_of_mem hbest)
  obtain ⟨hleft, hright, -⟩ := outline_eq_iff.mp hends
  obtain ⟨l, k, -, -, heq, -⟩ := hlisted _ hbest
  obtain ⟨l', k', -, -, rfl, -⟩ := hlisted' z hz
  rw [heq] at hleft hright
  obtain rfl : l' = l := hleft
  calc (best (N.stretch c 0 0) ws).value = ∑ i ∈ Finset.Ico l' (l' + k + 1), N.worthAt c i := by
        rw [heq]
        rfl
    _ ≤ ∑ i ∈ Finset.Ico l' (l' + k + 1), M.worthAt c i :=
        Finset.sum_le_sum fun i _ => hvalue (N.cityAt c i)
    _ = (M.stretch c l' (l' + k')).value := by
        rw [show l' + k' = l' + k from hright]
        rfl
    _ ≤ _ := value_le_of_merit_le (merit_le_best _ hz)

/-- The value of the best window of a walk grows with the budget, where no edge of the walk is
negative and no city is worth less than nothing, and with the values of the cities, whatever the
weights are. -/
theorem bestWindow_value_mono (N : Network ℚ n) (c : Fin n → Fin n) :
    (∀ M : Network ℚ n, M.weights = N.weights → M.values = N.values → N.budget ≤ M.budget →
      (∀ k < n, 0 ≤ N.legAt c k) → (∀ i, 0 ≤ N.value i) → N.NoBetter M c) ∧
    ∀ M : Network ℚ n, M.weights = N.weights → M.budget = N.budget →
      (∀ i, N.value i ≤ M.value i) → N.NoBetter M c := by
  constructor
  · intro M hweights hvalues hbudget hleg hvalue
    exact noBetter_of_budget_le hweights hvalues hbudget hleg hvalue
  · intro M hweights hbudget hvalue
    exact noBetter_of_value_le hweights hbudget hvalue

/-- On the ring with a budget that two edges exhaust and with a greater one, and on the slope, some
edges of which are negative, with one city worth more. -/
theorem bestWindow_value_mono_ring :
    (∀ k < 4, 0 ≤ (ring 6).legAt ringTour k) ∧ (∀ i, 0 ≤ (ring 6).value i) ∧
    (ring 6).NoBetter (ring 7) ringTour ∧
    (∀ i, slope.value i ≤ { slope with values := #v[-1, 4, 5] : Network ℚ 3 }.value i) ∧
    slope.NoBetter { slope with values := #v[-1, 4, 5] } id := by
  have hleg : ∀ k < 4, 0 ≤ (ring 6).legAt ringTour k := by decide +kernel
  have hvalue : ∀ i, 0 ≤ (ring 6).value i := by decide +kernel
  have hbudget : (ring 6).budget ≤ (ring 7).budget := by decide +kernel
  have hmore : ∀ i, slope.value i ≤
      { slope with values := #v[-1, 4, 5] : Network ℚ 3 }.value i := by
    decide +kernel
  refine ⟨hleg, hvalue, ?_, hmore, ?_⟩
  · exact (bestWindow_value_mono (ring 6) ringTour).1 (ring 7) rfl rfl hbudget hleg hvalue
  · exact (bestWindow_value_mono slope id).2 { slope with values := #v[-1, 4, 5] } rfl rfl hmore

end CityTour.Network
