import Mathlib
import CityTour.Problem.Basic
import CityTour.Proofs.Invariance

/-! The fitness as a ranking of windows, in exact arithmetic.  The scan prefers more value and then
more budget left; the fitness adds the share of the budget that is left to the value.  Where every
value is an integer the share, which is between zero and one, cannot outweigh a difference of
values, so both rank windows alike: the fitness of a chromosome is the least of all the windows of
its tour. -/

namespace CityTour

namespace Window

/-- A window with an integer value that leaves some part of a budget. -/
structure Counts (budget : ℚ) (w : Window ℚ) : Prop where
  value_int : w.value ∈ (Int.castRingHom ℚ).range
  saved_nonneg : 0 ≤ w.saved
  saved_le : w.saved ≤ budget

variable {v len : ℕ → ℚ} {budget : ℚ} {s t : ℕ}

theorem counts_stretch (hv : ∀ i, v i ∈ (Int.castRingHom ℚ).range) (hlen : ∀ i, 0 ≤ len i)
    (h : 0 ≤ (stretch v len budget s t).saved) : (stretch v len budget s t).Counts budget where
  value_int := by
    show ∑ i ∈ Finset.Ico s (t + 1), v i ∈ _
    exact sum_mem fun i _ => hv i
  saved_nonneg := h
  saved_le := sub_le_self budget (Finset.sum_nonneg fun i _ => hlen i)

end Window

namespace Network

variable {n : ℕ} (N : Network ℚ n) (r : Route n)

/-- The value of the city at a position of a list of stops, or zero if it names none. -/
def valueOrZero (k : ℕ) : ℚ := (N.valueOn r k).toOption.getD 0

/-- The length of the edge that leaves a position of a list of stops, or zero if there is none. -/
def lengthOrZero (k : ℕ) : ℚ := (N.lengthOn r k).toOption.getD 0

variable {N r} {first : Window ℚ} {later : List (Window ℚ)}

/-- Every window of a list of stops is a stretch within the budget, also where a stop names no city
and the scan ends before it gets there. -/
theorem stretches_of_scan (hscan : N.scan r = .ok (first, later)) : ∀ w ∈ first :: later, ∃ s t,
    w = Window.stretch (N.valueOrZero r) (N.lengthOrZero r) N.budget s t ∧ 0 ≤ w.saved := by
  have hv : ∀ i x, N.valueOn r i = .ok x → N.valueOrZero r i = x := by
    intro i x hx
    rw [valueOrZero, hx]
    rfl
  have hlen : ∀ i x, N.lengthOn r i = .ok x → N.lengthOrZero r i = x := by
    intro i x hx
    rw [lengthOrZero, hx]
    rfl
  -- Where a stop names no city any number will do, as the scan has not read it.
  unfold scan at hscan
  split at hscan
  · obtain ⟨start, hstart, hscan⟩ := bind_eq_ok_iff.mp hscan
    obtain ⟨ws, hws, hscan⟩ := bind_eq_ok_iff.mp hscan
    cases hscan
    obtain ⟨ws, hrun, run⟩ := Window.scanFrom_run (m := Except Fault) (N.valueOrZero r)
      (N.lengthOrZero r) 0 0 N.size_pos N.size_pos start N.budget .growing
    obtain rfl : ws = later :=
      Except.ok.inj (hrun.symm.trans (Window.scanFrom_of_ok hv hlen 0 0 _ _ _ _ _ hws))
    have hfirst : Window.stretch (N.valueOrZero r) (N.lengthOrZero r) N.budget 0 0 =
        ⟨0, 0, start, N.budget⟩ := by
      rw [Window.stretch_self, hv 0 start hstart]
    refine List.forall_mem_cons.mpr ⟨⟨0, 0, hfirst.symm, not_lt.mp N.budget_nonneg⟩, ?_⟩
    intro w hw
    obtain ⟨s, t, -, -, -, heq, hsaved⟩ :=
      run.sound hfirst (Nat.zero_le n) le_rfl (by simpa using N.size_pos) w hw
    exact ⟨s, t, heq, hsaved⟩
  · cases hscan

variable (N) in
/-- Every city is worth an integer, and every edge between two cities is positive. -/
structure Integral : Prop where
  value_int : ∀ i, ∃ m : ℤ, (m : ℚ) = N.value i
  weight_pos : ∀ i j, i ≠ j → 0 < N.weight i j

theorem Integral.weight_nonneg (h : N.Integral) (i j : Fin n) : 0 ≤ N.weight i j := by
  by_cases hij : i = j
  · subst hij
    have hzero : N.weight i i = 0 := beq_iff_eq.mp (N.weights.diagonal i)
    exact hzero.ge
  · exact (h.weight_pos i j hij).le

theorem Integral.valueOrZero (h : N.Integral) (k : ℕ) :
    N.valueOrZero r k ∈ (Int.castRingHom ℚ).range := by
  unfold Network.valueOrZero valueOn
  cases cityOn r k with
  | city i => exact h.value_int i
  | outside | unusable fault => exact zero_mem _

theorem Integral.lengthOrZero (h : N.Integral) (k : ℕ) : 0 ≤ N.lengthOrZero r k := by
  unfold Network.lengthOrZero lengthOn edge
  split
  · exact h.weight_nonneg _ _
  · exact le_rfl
  · exact le_rfl
  · exact le_rfl

theorem exists_scan_of_windows {ws : List (Window ℚ)} (h : N.windows r = .ok ws) :
    ∃ first later, N.scan r = .ok (first, later) ∧ ws = first :: later := by
  unfold windows at h
  cases hscan : N.scan r with
  | error fault =>
    rw [hscan] at h
    cases h
  | ok scanned =>
    rw [hscan] at h
    cases h
    exact ⟨scanned.1, scanned.2, rfl, rfl⟩

theorem Integral.counts (h : N.Integral) (hscan : N.scan r = .ok (first, later)) :
    ∀ w ∈ first :: later, w.Counts N.budget := by
  intro w hw
  obtain ⟨s, t, rfl, hsaved⟩ := stretches_of_scan hscan w hw
  exact Window.counts_stretch h.valueOrZero h.lengthOrZero hsaved

end Network

namespace Problem

variable {p : Problem ℚ} {w z : Window ℚ} {s t : ℚ}

theorem residual_mono (h : s ≤ t) : p.residual s ≤ p.residual t := by
  unfold residual
  split
  · exact le_rfl
  · exact div_le_div_of_nonneg_right h (not_lt.mp p.network.budget_nonneg)

theorem residual_nonneg (h : 0 ≤ s) : 0 ≤ p.residual s := by
  unfold residual
  split
  · exact le_rfl
  · exact div_nonneg h (not_lt.mp p.network.budget_nonneg)

theorem residual_le_one (h : s ≤ p.network.budget) : p.residual s ≤ 1 := by
  unfold residual
  split
  · exact zero_le_one
  · exact div_le_one_of_le₀ h (not_lt.mp p.network.budget_nonneg)

theorem fitness_le_of_merit_le (hw : w.Counts p.network.budget) (hz : z.Counts p.network.budget)
    (h : z.merit ≤ w.merit) : p.fitness w.value w.saved ≤ p.fitness z.value z.saved := by
  have hsum : z.value + p.residual z.saved ≤ w.value + p.residual w.saved := by
    rcases Window.merit_le_iff.mp h with hlt | ⟨heq, hle⟩
    · -- Different values are at least one apart, and shares of the budget at most one.
      obtain ⟨a, ha⟩ : ∃ a : ℤ, (a : ℚ) = z.value := hz.value_int
      obtain ⟨b, hb⟩ : ∃ b : ℤ, (b : ℚ) = w.value := hw.value_int
      have hstep : z.value + 1 ≤ w.value := by
        rw [← ha, ← hb] at hlt ⊢
        exact_mod_cast Int.add_one_le_of_lt (by exact_mod_cast hlt)
      have hmost : p.residual z.saved ≤ 1 := residual_le_one hz.saved_le
      have hleast : 0 ≤ p.residual w.saved := residual_nonneg hw.saved_nonneg
      linarith
    · rw [heq]
      exact add_le_add_right (residual_mono hle) _
  unfold fitness
  linarith

variable {x : List ℚ} {tour : List ℤ} {first : Window ℚ} {later : List (Window ℚ)}

theorem evaluateFitness_of_scan (hdecode : p.decode x = .ok tour)
    (hscan : p.network.scan (Route.ofTour p.size tour) = .ok (first, later)) :
    ∃ w, p.bestWindow x = .ok w ∧ w.merit = (Window.best first later).merit ∧
      p.evaluateFitness x =
        .ok (p.fitness (Window.best first later).value (Window.best first later).saved) := by
  have hbest : p.bestWindow x = .ok { Window.best first later with
      left := (Window.best first later).left % p.size
      right := (Window.best first later).right % p.size } := by
    rw [bestWindow, hdecode, ok_bind, Network.bestWindow_of_scan hscan]
  refine ⟨_, hbest, rfl, ?_⟩
  rw [evaluateFitness, hbest]
  rfl

/-- Of two windows that scans list, the one of more merit is never less fit. -/
theorem fitness_le_of_windows (h : p.network.Integral) {r s : Route p.size}
    {ws zs : List (Window ℚ)} (hws : p.network.windows r = .ok ws)
    (hzs : p.network.windows s = .ok zs) {w z : Window ℚ} (hw : w ∈ ws) (hz : z ∈ zs)
    (hmerit : z.merit ≤ w.merit) : p.fitness w.value w.saved ≤ p.fitness z.value z.saved := by
  obtain ⟨first, later, hscan, rfl⟩ := Network.exists_scan_of_windows hws
  obtain ⟨first', later', hscan', rfl⟩ := Network.exists_scan_of_windows hzs
  exact fitness_le_of_merit_le (h.counts hscan w hw) (h.counts hscan' z hz) hmerit

/-- The fitness of a chromosome is the least of the windows of its tour. -/
theorem exists_isLeast_fitness (h : p.network.Integral) {x : List ℚ} {tour : List ℤ}
    {ws : List (Window ℚ)} (hdecode : p.decode x = .ok tour)
    (hws : p.network.windows (Route.ofTour p.size tour) = .ok ws) :
    ∃ f, p.evaluateFitness x = .ok f ∧
      IsLeast {g | ∃ w ∈ ws, p.fitness w.value w.saved = g} f := by
  obtain ⟨first, later, hscan, rfl⟩ := Network.exists_scan_of_windows hws
  obtain ⟨-, -, -, hfitness⟩ := evaluateFitness_of_scan hdecode hscan
  have hbest := Window.best_mem first later
  refine ⟨_, hfitness, ⟨_, hbest, rfl⟩, ?_⟩
  rintro _ ⟨w, hw, rfl⟩
  exact fitness_le_of_windows h hws hws hbest hw (Window.merit_le_best w hw)

/-- Of two tours, the one with the better best window is never less fit. -/
theorem exists_fitness_le (h : p.network.Integral) {x y : List ℚ} {tour tour' : List ℤ}
    (hx : p.decode x = .ok tour) (hy : p.decode y = .ok tour') (htour : IsTour p.size tour)
    (htour' : IsTour p.size tour') :
    ∃ w z f g, p.bestWindow x = .ok w ∧ p.bestWindow y = .ok z ∧
      p.evaluateFitness x = .ok f ∧ p.evaluateFitness y = .ok g ∧ (z.merit ≤ w.merit → f ≤ g) := by
  obtain ⟨⟨first, later⟩, hscan⟩ := p.network.exists_scan htour.length_eq htour.namesCities
  obtain ⟨⟨first', later'⟩, hscan'⟩ := p.network.exists_scan htour'.length_eq htour'.namesCities
  obtain ⟨w, hw, hmerit, hf⟩ := evaluateFitness_of_scan hx hscan
  obtain ⟨z, hz, hmerit', hg⟩ := evaluateFitness_of_scan hy hscan'
  refine ⟨w, z, _, _, hw, hz, hf, hg, ?_⟩
  intro hle
  rw [hmerit, hmerit'] at hle
  exact fitness_le_of_merit_le (h.counts hscan _ (Window.best_mem first later))
    (h.counts hscan' _ (Window.best_mem first' later')) hle

/-- Where every city is worth an integer and every edge is positive, the fitness ranks the windows
of any scans as the scan does: more merit is never a worse fitness.  So the fitness of a chromosome
is the least of the windows of its tour, and of two tours the one with the better best window is
never less fit. -/
theorem fitness_ranks_windows (p : Problem ℚ) (h : p.network.Integral) :
    (∀ tour, IsTour p.size tour →
      ∃ ws, p.network.windows (Route.ofTour p.size tour) = .ok ws) ∧
    (∀ (r s : Route p.size) ws zs, p.network.windows r = .ok ws → p.network.windows s = .ok zs →
      ∀ w ∈ ws, ∀ z ∈ zs, z.merit ≤ w.merit →
        p.fitness w.value w.saved ≤ p.fitness z.value z.saved) ∧
    (∀ x tour ws, p.decode x = .ok tour →
      p.network.windows (Route.ofTour p.size tour) = .ok ws →
      ∃ f, p.evaluateFitness x = .ok f ∧ IsLeast {g | ∃ w ∈ ws, p.fitness w.value w.saved = g} f) ∧
    ∀ x y tour tour', p.decode x = .ok tour → p.decode y = .ok tour' →
      IsTour p.size tour → IsTour p.size tour' →
      ∃ w z f g, p.bestWindow x = .ok w ∧ p.bestWindow y = .ok z ∧
        p.evaluateFitness x = .ok f ∧ p.evaluateFitness y = .ok g ∧
        (z.merit ≤ w.merit → f ≤ g) := by
  refine ⟨?_, ?_, ?_, ?_⟩
  · intro tour htour
    obtain ⟨ws, hws⟩ := p.network.exists_scan htour.length_eq htour.namesCities
    exact ⟨ws.1 :: ws.2, Network.windows_of_scan hws⟩
  · intro r s ws zs hws hzs w hw z hz hmerit
    exact fitness_le_of_windows h hws hzs hw hz hmerit
  · intro x tour ws hdecode hws
    exact exists_isLeast_fitness h hdecode hws
  · intro x y tour tour' hx hy htour htour'
    exact exists_fitness_le h hx hy htour htour'

/-- On the square, where the tour of the greater value leaves less of the budget. -/
theorem fitness_ranks_windows_square : Network.square.Integral ∧ ∃ w z f g,
    (⟨4, Network.square, .cities⟩ : Problem ℚ).bestWindow [0, 1, 2, 3] = .ok w ∧
    (⟨4, Network.square, .cities⟩ : Problem ℚ).bestWindow [0, 2, 1, 3] = .ok z ∧
    (⟨4, Network.square, .cities⟩ : Problem ℚ).evaluateFitness [0, 1, 2, 3] = .ok f ∧
    (⟨4, Network.square, .cities⟩ : Problem ℚ).evaluateFitness [0, 2, 1, 3] = .ok g ∧
    w.merit = toLex (12, 1 / 2) ∧ z.merit = toLex (9, 5 / 2) ∧ f ≤ g := by
  have hintegral : Network.square.Integral :=
    { value_int := fun i => ⟨![4, 1, 3, 5] i, by revert i; decide +kernel⟩
      weight_pos := by decide +kernel }
  have hmerits : ((⟨4, Network.square, .cities⟩ : Problem ℚ).bestWindow
        [0, 1, 2, 3]).toOption.map Window.merit = some (toLex (12, 1 / 2)) ∧
      ((⟨4, Network.square, .cities⟩ : Problem ℚ).bestWindow
        [0, 2, 1, 3]).toOption.map Window.merit = some (toLex (9, 5 / 2)) := by
    decide +kernel
  obtain ⟨-, -, -, hranks⟩ := fitness_ranks_windows ⟨4, Network.square, .cities⟩ hintegral
  obtain ⟨w, z, f, g, hw, hz, hf, hg, hle⟩ := hranks [0, 1, 2, 3] [0, 2, 1, 3] [0, 1, 2, 3]
    [0, 2, 1, 3] (Encoding.decode_ofInt (m := 4) [0, 1, 2, 3] (by decide))
    (Encoding.decode_ofInt (m := 4) [0, 2, 1, 3] (by decide)) (by decide) (by decide)
  rw [hw, hz] at hmerits
  have hmerit : w.merit = toLex (12, 1 / 2) := Option.some.inj hmerits.1
  have hmerit' : z.merit = toLex (9, 5 / 2) := Option.some.inj hmerits.2
  refine ⟨hintegral, w, z, f, g, hw, hz, hf, hg, hmerit, hmerit', hle ?_⟩
  rw [hmerit, hmerit']
  decide +kernel

end Problem

end CityTour
