import Mathlib
import CityTour.Proofs.BestWindow
import CityTour.Proofs.Route
import CityTour.Proofs.Window.Loop

/-! The windows that the scan of a tour lists: where their ends move, and what their sums account
for.  The tour may visit a city several times and miss others, and the network may be made of any
numbers: negative and infinite weights, values that are no numbers, sums that are rounded. -/

namespace CityTour.Network

section AnyNumbers

variable {α : Type} [Scalar α] {n : ℕ}

/-- The scan of a tour whose entries name cities ends without a fault.  Its windows are those of the
loop that compares the pointers on the cycle, which ends within `3 * n - 1` turns.  The first window
is the first city, every window stays on the walk without going all the way around, each one is
ahead of those before it, and there are no more than `3 * n - 1`. -/
theorem windows_forward (N : Network α n) {tour : List ℤ} (hlen : tour.length = n)
    (hnames : NamesCities n tour) :
    ∃ (c : Fin n → Fin n) (first : Window α) (later : List (Window α)),
      (∀ k, cityOn (Route.ofTour n tour) k = .city (N.cityAt c k)) ∧
      N.windows (Route.ofTour n tour) = .ok (first :: later) ∧
      Window.loop n (N.worthAt c) (N.legAt c) (3 * n - 1) first .growing = some later ∧
      first.left = 0 ∧ first.right = 0 ∧
      (∀ w ∈ first :: later, w.left ≤ n ∧ w.left ≤ w.right ∧ w.right < w.left + n) ∧
      (first :: later).Pairwise Window.Precedes ∧
      (first :: later).length ≤ 3 * n - 1 := by
  obtain ⟨c, hroute⟩ := exists_tourOf hlen hnames
  have hn := N.size_pos
  obtain ⟨later, hscan, hloop⟩ := Window.scanFrom_eq_loop (m := Except Fault) (N.worthAt c)
    (N.legAt c) 0 0 hn hn (N.worthAt c 0) N.budget .growing (3 * n - 1) (by omega)
  have hlive : Window.Live n ⟨0, 0, N.worthAt c 0, N.budget⟩ .growing :=
    ⟨hn, Nat.le_refl 0, by simpa using hn⟩
  obtain ⟨hwalk, hpair, hcount⟩ := Window.loop_forward hlive hloop
  refine ⟨c, ⟨0, 0, N.worthAt c 0, N.budget⟩, later, ?_, ?_, hloop, rfl, rfl, ?_, ?_, ?_⟩
  · intro k
    rw [hroute, N.cityOn_tourOf]
  · rw [hroute, windows, scan_tourOf_eq, hscan]
    rfl
  · intro w hw
    rcases List.mem_cons.mp hw with rfl | hw
    · exact ⟨Nat.zero_le n, Nat.le_refl 0, hlive.2.2⟩
    · obtain ⟨hleft, hlr, hright⟩ := (hwalk w hw).1
      exact ⟨hleft, hlr, hright⟩
  · exact List.pairwise_cons.mpr ⟨fun w hw => (hwalk w hw).2, hpair⟩
  · simp only [Nat.add_zero] at hcount
    rw [List.length_cons]
    omega

/-- Three cities with negative and infinite weights, a value that is no number and an infinite
budget. -/
def unruly : Network Float 3 where
  weights :=
    { rows := #v[#v[0, Double.infinity true, -1], #v[Double.infinity false, 0, 2], #v[-3, 1, 0]]
      size_pos := Nat.succ_pos 2
      diagonal := by decide +kernel
      defined := by decide +kernel
      nonzero := by decide +kernel }
  values := #v[Double.undefined, 1, Double.infinity true]
  budget := Double.infinity false
  budget_defined := by decide +kernel
  budget_nonneg := by decide +kernel

/-- A tour that visits the last city twice, counted from either end, and misses one. -/
theorem windows_forward_unruly :
    NamesCities 3 [-1, 0, 2] ∧ ∃ (first : Window Float) (later : List (Window Float)),
      unruly.windows (Route.ofTour 3 [-1, 0, 2]) = .ok (first :: later) ∧
      (first :: later).Pairwise Window.Precedes ∧ (first :: later).length ≤ 8 := by
  have hnames : NamesCities 3 [-1, 0, 2] := by decide
  obtain ⟨-, first, later, -, hwindows, -, -, -, -, hpair, hcount⟩ :=
    windows_forward unruly rfl hnames
  exact ⟨hnames, first, later, hwindows, hpair, hcount⟩

end AnyNumbers

/-! ### The account that the scan keeps, in exact arithmetic

The running sums change with every move of an end, and while the scan shrinks they are overdrawn;
yet every listed window has the value of its cities and what its edges leave of the budget, whatever
the signs of the weights and however often the tour visits a city.  The ends of the best window are
reported as positions on the cycle, from which the same sums can be recovered, as no window goes all
the way around. -/

section Exact

open Window

variable {n : ℕ}

/-- The number of edges from one position on the cycle to another. -/
def edgesBetween (n start stop : ℕ) : ℕ := (((stop : ℤ) - start) % n).toNat

theorem edgesBetween_mod {l k : ℕ} (hk : k < n) : edgesBetween n (l % n) ((l + k) % n) = k := by
  have hcast : (((l + k) % n : ℕ) - (l % n : ℕ) : ℤ) % n = k := by
    rw [Int.natCast_mod, Int.natCast_mod, ← Int.sub_emod]
    push_cast
    rw [add_sub_cancel_left]
    exact Int.emod_eq_of_lt (by omega) (by omega)
  rw [edgesBetween, hcast, Int.toNat_natCast]

variable (N : Network ℚ n) (c : Fin n → Fin n)

/-- A window that adds up: it does not go all the way around, its value is that of its cities, and
it leaves what its edges leave of the budget, which is no debt. -/
structure AddsUp (w : Window ℚ) : Prop where
  left_le_right : w.left ≤ w.right
  right_lt : w.right < w.left + n
  value_eq : w.value = ∑ k ∈ Finset.Icc w.left w.right, N.worthAt c k
  saved_eq : w.saved = N.budget - ∑ k ∈ Finset.Ico w.left w.right, N.legAt c k
  saved_nonneg : 0 ≤ w.saved

variable {N c}

theorem addsUp_stretch {l k : ℕ} (hk : k < n) (hsaved : 0 ≤ (N.stretch c l (l + k)).saved) :
    N.AddsUp c (N.stretch c l (l + k)) where
  left_le_right := Nat.le_add_right l k
  right_lt := Nat.add_lt_add_left hk l
  value_eq := rfl
  saved_eq := rfl
  saved_nonneg := hsaved

/-- A stretch with its ends counted around the cycle, from which its sums can be recovered. -/
theorem sums_of_mod {l k : ℕ} (hl : l ≤ n) (hk : k < n) {start stop : ℕ} (hstart : start = l % n)
    (hstop : stop = (l + k) % n) :
    (N.stretch c l (l + k)).value = N.stretchValue c start (edgesBetween n start stop) ∧
    (N.stretch c l (l + k)).saved =
      N.budget - N.stretchLength c start (edgesBetween n start stop) := by
  rw [hstart, hstop, edgesBetween_mod hk]
  exact Prod.ext_iff.mp (toLex.injective (N.merit_stretch_mod c hl k))

/-- Every window that the scan of a tour lists adds up, with weights of any sign and a tour that
may pass a city more than once.  The result is the first window of the greatest value and then the
greatest budget left; its ends are positions of the tour, between which its sums are taken. -/
theorem windows_addUp (N : Network ℚ n) {tour : List ℤ} (hlen : tour.length = n)
    (hnames : NamesCities n tour) :
    ∃ c : Fin n → Fin n, (∀ k, cityAt? n (tour.get (k.cast hlen.symm)) = some (c k)) ∧
    ∃ ws z w, N.windows (Route.ofTour n tour) = .ok ws ∧ (∀ y ∈ ws, N.AddsUp c y) ∧
      FirstBest ws z ∧ N.bestWindow (Route.ofTour n tour) = .ok w ∧
      w = { z with left := z.left % n, right := z.right % n } ∧ w.left < n ∧ w.right < n ∧
      w.value = N.stretchValue c w.left (edgesBetween n w.left w.right) ∧
      w.saved = N.budget - N.stretchLength c w.left (edgesBetween n w.left w.right) := by
  obtain ⟨c, hroute⟩ := exists_tourOf hlen hnames
  obtain ⟨ws, hscan, -, hlisted⟩ := N.scan_stretches c
  refine ⟨c, (ofTour_eq_tourOf_iff hlen).mp hroute, N.stretch c 0 0 :: ws, _, _, ?_, ?_,
    firstBest_best _ ws, by rw [hroute, bestWindow, hscan]; rfl, rfl, ?_⟩
  · rw [hroute, windows, hscan]
    rfl
  · intro y hy
    obtain ⟨l, k, -, hk, rfl, hsaved⟩ := hlisted y hy
    exact addsUp_stretch hk hsaved
  · obtain ⟨l, k, hl, hk, heq, -⟩ := hlisted _ (best_mem _ ws)
    rw [heq]
    exact ⟨Nat.mod_lt _ N.size_pos, Nat.mod_lt _ N.size_pos, sums_of_mod hl hk rfl rfl⟩

/-- Three cities between which some edges are negative. -/
def slope : Network ℚ 3 where
  weights :=
    { rows := #v[#v[0, 2, -1], #v[1, 0, 3], #v[-2, 1, 0]]
      size_pos := Nat.le_add_left 1 2
      diagonal := by decide +kernel
      defined := by decide +kernel
      nonzero := by decide +kernel }
  values := #v[-1, 4, 2]
  budget := 1
  budget_defined := Scalar.isUndefined_rational 1
  budget_nonneg := by decide +kernel

/-- A tour that passes the last city twice, once counted from the end, and misses the first. -/
theorem windows_addUp_slope :
    ([2, -1, 1] : List ℤ).length = 3 ∧ NamesCities 3 [2, -1, 1] ∧
    ∃ c : Fin 3 → Fin 3, ∃ ws w, slope.windows (Route.ofTour 3 [2, -1, 1]) = .ok ws ∧
      (∀ y ∈ ws, slope.AddsUp c y) ∧ slope.bestWindow (Route.ofTour 3 [2, -1, 1]) = .ok w ∧
      w.value = slope.stretchValue c w.left (edgesBetween 3 w.left w.right) := by
  have hlen : ([2, -1, 1] : List ℤ).length = 3 := rfl
  have hnames : NamesCities 3 [2, -1, 1] := by decide
  obtain ⟨c, -, ws, z, w, hws, hadds, -, hw, -, -, -, hvalue, -⟩ :=
    windows_addUp slope hlen hnames
  exact ⟨hlen, hnames, c, ws, w, hws, hadds, hw, hvalue⟩

end Exact

end CityTour.Network
