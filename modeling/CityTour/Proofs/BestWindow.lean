import Mathlib
import CityTour.Network
import CityTour.Proofs.Tour
import CityTour.Proofs.Window.Scan
import CityTour.Proofs.Window.Stretch

/-! The best window of a closed walk through a network, in exact arithmetic.  `stretchValue` and
`stretchLength` sum up the cities and the edges of any stretch of the walk.  Where no edge of the
walk is negative, the best window is worth at least as much as every stretch shorter than the
budget, and is itself a stretch within the budget; where no stretch exhausts the budget exactly and
none through all cities fits, it is the greatest stretch within the budget. -/

namespace CityTour.Network

open Scalar

variable {n : ℕ}

section Walk

variable {α : Type} [Scalar α] (N : Network α n) (c : Fin n → Fin n)

/-- The city at a position of a closed walk, counted around the cycle. -/
def cityAt (k : ℕ) : Fin n := c ⟨k % n, Nat.mod_lt k N.size_pos⟩

/-- The value of the city at a position of a closed walk. -/
def worthAt (k : ℕ) : α := N.value (N.cityAt c k)

/-- The length of the edge that leaves a position of a closed walk. -/
def legAt (k : ℕ) : α := N.weight (N.cityAt c k) (N.cityAt c (k + 1))

theorem cityAt_add_size (k : ℕ) : N.cityAt c (k + n) = N.cityAt c k := by
  simp [cityAt]

theorem worthAt_add_size (k : ℕ) : N.worthAt c (k + n) = N.worthAt c k := by
  rw [worthAt, cityAt_add_size, worthAt]

theorem legAt_add_size (k : ℕ) : N.legAt c (k + n) = N.legAt c k := by
  rw [legAt, show k + n + 1 = k + 1 + n by omega, cityAt_add_size, cityAt_add_size, legAt]

theorem worthAt_mod (k : ℕ) : N.worthAt c (k % n) = N.worthAt c k := by
  simp [worthAt, cityAt]

theorem legAt_mod (k : ℕ) : N.legAt c (k % n) = N.legAt c k := by
  simp [legAt, cityAt]

theorem cityOn_tourOf (k : ℕ) :
    cityOn (Route.ofTour n (tourOf c)) k = .city (N.cityAt c k) := by
  have hk := Nat.mod_lt k N.size_pos
  rw [cityOn, tourOf, Route.ofTour_numbers, List.getElem?_map, List.getElem?_ofFn, dif_pos hk]
  rfl

theorem valueOn_tourOf (k : ℕ) :
    N.valueOn (Route.ofTour n (tourOf c)) k = .ok (N.worthAt c k) := by
  rw [valueOn, N.cityOn_tourOf]
  rfl

theorem lengthOn_tourOf (k : ℕ) :
    N.lengthOn (Route.ofTour n (tourOf c)) k = .ok (N.legAt c k) := by
  rw [lengthOn, N.cityOn_tourOf, N.cityOn_tourOf]
  rfl

/-- The scan of a tour is the scan of a walk that never fails. -/
theorem scan_tourOf_eq : N.scan (Route.ofTour n (tourOf c)) =
    (Window.scanFrom n (fun k => (pure (N.worthAt c k) : Except Fault α))
      (fun k => pure (N.legAt c k)) 0 0 N.size_pos N.size_pos (N.worthAt c 0) N.budget
      .growing).map fun ws => (⟨0, 0, N.worthAt c 0, N.budget⟩, ws) := by
  have hvalue : N.valueOn (Route.ofTour n (tourOf c)) = fun k => pure (N.worthAt c k) :=
    funext (N.valueOn_tourOf c)
  have hlength : N.lengthOn (Route.ofTour n (tourOf c)) = fun k => pure (N.legAt c k) :=
    funext (N.lengthOn_tourOf c)
  rw [scan, if_pos (by simp [tourOf, Route.ofTour_numbers]), hvalue, hlength, Window.scan,
    pure_bind]
  rfl

/-- The scan of a tour never fails, and lists the windows of a run. -/
theorem scan_tourOf : ∃ ws, N.scan (Route.ofTour n (tourOf c)) =
    .ok (⟨0, 0, N.worthAt c 0, N.budget⟩, ws) ∧
    Window.Run n (N.worthAt c) (N.legAt c) ⟨0, 0, N.worthAt c 0, N.budget⟩ .growing ws := by
  obtain ⟨ws, hws, run⟩ := Window.scanFrom_run (m := Except Fault) (N.worthAt c) (N.legAt c)
    0 0 N.size_pos N.size_pos (N.worthAt c 0) N.budget .growing
  refine ⟨ws, ?_, run⟩
  rw [scan_tourOf_eq, hws]
  rfl

variable {N} {r : Route n} {first : Window α} {later : List (Window α)}

theorem windows_of_scan (h : N.scan r = .ok (first, later)) :
    N.windows r = .ok (first :: later) := by
  rw [windows, h]
  rfl

theorem bestWindow_of_scan (h : N.scan r = .ok (first, later)) :
    N.bestWindow r = .ok { Window.best first later with
      left := (Window.best first later).left % n
      right := (Window.best first later).right % n } := by
  rw [bestWindow, h]
  rfl

end Walk

section Exact

variable (N : Network ℚ n) (c : Fin n → Fin n)

/-- The value of the cities of a closed walk from position `s` over `k` edges. -/
def stretchValue (s k : ℕ) : ℚ := ∑ i ∈ Finset.Ico s (s + k + 1), N.worthAt c i

/-- The length of a closed walk from position `s` over `k` edges. -/
def stretchLength (s k : ℕ) : ℚ := ∑ i ∈ Finset.Ico s (s + k), N.legAt c i

/-- The window of a closed walk from position `l` to position `r`. -/
def stretch (l r : ℕ) : Window ℚ := Window.stretch (N.worthAt c) (N.legAt c) N.budget l r

theorem merit_stretch (s k : ℕ) : (N.stretch c s (s + k)).merit =
    toLex (N.stretchValue c s k, N.budget - N.stretchLength c s k) := rfl

/-- Counting a position around the cycle changes no sum from there on. -/
theorem merit_stretch_mod {l : ℕ} (hl : l ≤ n) (k : ℕ) : (N.stretch c l (l + k)).merit =
    toLex (N.stretchValue c (l % n) k, N.budget - N.stretchLength c (l % n) k) := by
  rw [← N.merit_stretch]
  rcases hl.lt_or_eq with hl | rfl
  · rw [Nat.mod_eq_of_lt hl]
  · have h : N.stretch c (0 + l) (k + l) =
        { N.stretch c 0 k with left := 0 + l, right := k + l } :=
      Window.stretch_add_period (N.worthAt_add_size c) (N.legAt_add_size c) 0 k
    rw [Nat.zero_add, Nat.add_comm k] at h
    rw [Nat.mod_self, Nat.zero_add, h]
    rfl

theorem stretch_saved_mod {l : ℕ} (hl : l ≤ n) (k : ℕ) :
    (N.stretch c l (l + k)).saved = N.budget - N.stretchLength c (l % n) k :=
  (Prod.ext_iff.mp (toLex.injective (N.merit_stretch_mod c hl k))).2

/-- The scan lists stretches within the budget, of which the first is the first city alone. -/
theorem scan_stretches : ∃ ws, N.scan (Route.ofTour n (tourOf c)) = .ok (N.stretch c 0 0, ws) ∧
    Window.Run n (N.worthAt c) (N.legAt c) (N.stretch c 0 0) .growing ws ∧
    ∀ y ∈ N.stretch c 0 0 :: ws, ∃ l k, l ≤ n ∧ k < n ∧ y = N.stretch c l (l + k) ∧
      0 ≤ y.saved := by
  obtain ⟨ws, hscan, run⟩ := N.scan_tourOf c
  have hn := N.size_pos
  have hfirst : N.stretch c 0 0 = ⟨0, 0, N.worthAt c 0, N.budget⟩ := Window.stretch_self _ _ _ 0
  rw [← hfirst] at hscan run
  refine ⟨ws, hscan, run, List.forall_mem_cons.mpr ⟨⟨0, 0, by omega, hn, rfl, ?_⟩, ?_⟩⟩
  · rw [hfirst]
    exact not_lt.mp N.budget_nonneg
  · intro y hy
    obtain ⟨l, r, hl, hlr, hr, heq, h0⟩ := run.sound rfl (by omega) le_rfl (by omega) y hy
    obtain ⟨k, rfl⟩ := Nat.exists_eq_add_of_le hlr
    exact ⟨l, k, hl, by omega, heq, h0⟩

variable {N c}

/-- The best window of a tour is a stretch within the budget, and every stretch that leaves some
budget is reached over by a stretch within the budget that has no more merit than the best. -/
theorem exists_bestWindow (hlen : ∀ k, 0 ≤ N.legAt c k) :
    ∃ w, N.bestWindow (Route.ofTour n (tourOf c)) = .ok w ∧
      (∃ s < n, ∃ k < n, N.stretchLength c s k ≤ N.budget ∧
        w.merit = toLex (N.stretchValue c s k, N.budget - N.stretchLength c s k)) ∧
      ∀ s t, s < n → s ≤ t → 0 < (N.stretch c s t).saved → ∃ l k, l ≤ n ∧ k < n ∧
        0 ≤ (N.stretch c l (l + k)).saved ∧ (N.stretch c l (l + k)).Reaches n s t ∧
        (N.stretch c l (l + k)).merit ≤ w.merit := by
  obtain ⟨ws, hscan, run, hlisted⟩ := N.scan_stretches c
  have hn := N.size_pos
  refine ⟨_, by rw [bestWindow, hscan]; rfl, ?_, fun s t hs hst hsaved => ?_⟩
  · obtain ⟨l, k, hl, hk, heq, h0⟩ := hlisted _ (Window.best_mem _ ws)
    rw [heq, N.stretch_saved_mod c hl] at h0
    have hmerit := congrArg Window.merit heq
    rw [N.merit_stretch_mod c hl] at hmerit
    exact ⟨l % n, Nat.mod_lt l hn, k, hk, sub_nonneg.mp h0, hmerit⟩
  · obtain ⟨y, hy, hreach⟩ := run.covers rfl le_rfl rfl hlen (Nat.zero_le s) hs hst hsaved
    have hmerit := Window.merit_le_best y hy
    obtain ⟨l, k, hl, hk, rfl, h0⟩ := hlisted y hy
    exact ⟨l, k, hl, hk, h0, hreach, hmerit⟩

/-- Where no city is worth less than nothing, the best window of a tour without negative edges is
worth at least as much as every stretch shorter than the budget, and it is a stretch within the
budget. -/
theorem bestWindow_value_ge (N : Network ℚ n) (c : Fin n → Fin n)
    (hlen : ∀ k < n, 0 ≤ N.legAt c k) (hval : ∀ i, 0 ≤ N.value i) :
    ∃ w, N.bestWindow (Route.ofTour n (tourOf c)) = .ok w ∧
      (∀ s < n, ∀ k < n, N.stretchLength c s k < N.budget → N.stretchValue c s k ≤ w.value) ∧
      ∃ s < n, ∃ k < n, N.stretchLength c s k ≤ N.budget ∧ w.value = N.stretchValue c s k ∧
        w.saved = N.budget - N.stretchLength c s k := by
  have hlen' : ∀ k, 0 ≤ N.legAt c k := fun k =>
    N.legAt_mod c k ▸ hlen _ (Nat.mod_lt k N.size_pos)
  have hworth : ∀ k, 0 ≤ N.worthAt c k := fun k => hval _
  obtain ⟨w, hw, ⟨s, hs, k, hk, hfits, hmerit⟩, hbest⟩ := exists_bestWindow hlen'
  refine ⟨w, hw, fun s hs k hk hlt => ?_, s, hs, k, hk, hfits, ?_⟩
  · obtain ⟨l, m, hl, hm, -, hreach, hle⟩ := hbest s (s + k) hs (by omega) (sub_pos.mpr hlt)
    have hpart : (N.stretch c s (s + k)).value ≤ (N.stretch c l (l + m)).value := by
      rcases hreach with ⟨hsl, htr⟩ | hround
      · exact Window.stretch_value_le hworth hsl htr
      · exact Window.stretch_value_le_full (N.worthAt_add_size c) hworth hround (by omega)
    refine hpart.trans ?_
    rcases Window.merit_le_iff.mp hle with h | h
    · exact h.le
    · exact h.1.le
  · exact Prod.ext_iff.mp (toLex.injective hmerit)

/-- Four cities on a ring of edges of length two and four in turn. -/
def ring (budget : ℕ) : Network ℚ 4 where
  weights :=
    { rows := #v[#v[0, 9, 9, 4], #v[9, 0, 4, 9], #v[2, 9, 0, 9], #v[9, 2, 9, 0]]
      size_pos := by decide
      diagonal := by decide +kernel
      defined := by decide +kernel
      nonzero := by decide +kernel }
  values := #v[5, 1, 2, 4]
  budget := budget
  budget_defined := isUndefined_rational budget
  budget_nonneg := not_lt.mpr (Nat.cast_nonneg budget)

/-- The tour along the ring. -/
def ringTour : Fin 4 → Fin 4 := ![2, 0, 3, 1]

/-- On the ring with a budget that every stretch of two edges exhausts exactly. -/
theorem bestWindow_value_ge_ring :
    (∀ k < 4, 0 ≤ (ring 6).legAt ringTour k) ∧ (∀ i, 0 ≤ (ring 6).value i) ∧
    ∃ w, (ring 6).bestWindow (Route.ofTour 4 (tourOf ringTour)) = .ok w ∧
      ∀ s < 4, ∀ k < 4, (ring 6).stretchLength ringTour s k < 6 →
        (ring 6).stretchValue ringTour s k ≤ w.value := by
  have hlen : ∀ k < 4, 0 ≤ (ring 6).legAt ringTour k := by decide +kernel
  have hval : ∀ i, 0 ≤ (ring 6).value i := by decide +kernel
  obtain ⟨w, hw, hge, -⟩ := bestWindow_value_ge (ring 6) ringTour hlen hval
  exact ⟨hlen, hval, w, hw, hge⟩

/-- Where every edge of a tour is positive, every city is worth something, no stretch is exactly as
long as the budget and no stretch through all cities is within it, the best window is the greatest
of all stretches within the budget, by value and then by what is left of the budget. -/
theorem bestWindow_isGreatest (N : Network ℚ n) (c : Fin n → Fin n)
    (hlen : ∀ k < n, 0 < N.legAt c k) (hval : ∀ i, 0 < N.value i)
    (hexact : ∀ s < n, ∀ k < n, N.stretchLength c s k ≠ N.budget)
    (hround : ∀ s < n, N.budget < N.stretchLength c s (n - 1)) :
    ∃ w, N.bestWindow (Route.ofTour n (tourOf c)) = .ok w ∧
      IsGreatest {m : ℚ ×ₗ ℚ | ∃ s < n, ∃ k < n, N.stretchLength c s k ≤ N.budget ∧
        m = toLex (N.stretchValue c s k, N.budget - N.stretchLength c s k)}
        (toLex (w.value, w.saved)) := by
  have hlen' : ∀ k, 0 ≤ N.legAt c k := fun k =>
    N.legAt_mod c k ▸ (hlen _ (Nat.mod_lt k N.size_pos)).le
  have hworth : ∀ k, 0 < N.worthAt c k := fun k => hval _
  obtain ⟨w, hw, hattained, hbest⟩ := exists_bestWindow hlen'
  refine ⟨w, hw, hattained, ?_⟩
  rintro m ⟨s, hs, k, hk, hfits, rfl⟩
  obtain ⟨l, m, hl, hm, hfits', hreach, hle⟩ :=
    hbest s (s + k) hs (by omega) (sub_pos.mpr (lt_of_le_of_ne hfits (hexact s hs k hk)))
  refine le_trans ?_ hle
  rcases hreach with ⟨hsl, htr⟩ | hall
  · exact Window.merit_stretch_le hworth hsl htr (by omega)
  · -- A stretch around the whole walk would be longer than the budget.
    replace hall : l + m + 1 = l + n := hall
    obtain rfl : m = n - 1 := by omega
    have hover := hround _ (Nat.mod_lt l N.size_pos)
    rw [N.stretch_saved_mod c hl, sub_nonneg] at hfits'
    exact absurd hover (not_lt.mpr hfits')

/-- On the ring with a budget between the lengths of two and of three edges. -/
theorem bestWindow_isGreatest_ring :
    (∀ k < 4, 0 < (ring 7).legAt ringTour k) ∧ (∀ i, 0 < (ring 7).value i) ∧
    (∀ s < 4, ∀ k < 4, (ring 7).stretchLength ringTour s k ≠ 7) ∧
    (∀ s < 4, 7 < (ring 7).stretchLength ringTour s 3) ∧
    ∃ w, (ring 7).bestWindow (Route.ofTour 4 (tourOf ringTour)) = .ok w ∧
      toLex (11, 1) ≤ toLex (w.value, w.saved) := by
  have hlen : ∀ k < 4, 0 < (ring 7).legAt ringTour k := by decide +kernel
  have hval : ∀ i, 0 < (ring 7).value i := by decide +kernel
  have hexact : ∀ s < 4, ∀ k < 4, (ring 7).stretchLength ringTour s k ≠ 7 := by decide +kernel
  have hround : ∀ s < 4, 7 < (ring 7).stretchLength ringTour s 3 := by decide +kernel
  obtain ⟨w, hw, -, hbest⟩ := bestWindow_isGreatest (ring 7) ringTour hlen hval hexact hround
  refine ⟨hlen, hval, hexact, hround, w, hw, hbest ⟨0, by decide, 2, by decide, ?_, ?_⟩⟩
  · decide +kernel
  · decide +kernel

end Exact

end CityTour.Network
