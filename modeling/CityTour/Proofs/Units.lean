import Mathlib
import CityTour.Problem.Basic
import CityTour.Proofs.Account
import CityTour.Proofs.Outcome

/-! Change of units, in exact arithmetic.  Every test of the scan compares with zero and the choice
of the best window compares values with values and budgets left with budgets left, so a scan in
other units of value and of length takes the same course.  The fitness adds the value to the share
of the budget that is left, which has no unit: it does not depend on the unit of length. -/

namespace CityTour

namespace Window

variable {a c : ℚ}

/-- A window in other units: one old unit of value is `a` new ones, and one of length `c`. -/
def rescale (a c : ℚ) (w : Window ℚ) : Window ℚ := ⟨w.left, w.right, a * w.value, c * w.saved⟩

theorem rescale_cons (a c : ℚ) (l r : ℕ) (total saved : ℚ) (ws : List (Window ℚ)) :
    ⟨l, r, a * total, c * saved⟩ :: ws.map (rescale a c) =
      ((⟨l, r, total, saved⟩ : Window ℚ) :: ws).map (rescale a c) := rfl

theorem scanFrom_rescale {m : Type → Type} [Monad m] [LawfulMonad m] {n : ℕ} (hc : 0 < c)
    (value length : ℕ → m ℚ) (l k : ℕ) (hl : l < n) (hk : k < n) (total saved : ℚ)
    (phase : Phase) :
    scanFrom n (fun i => (a * ·) <$> value i) (fun i => (c * ·) <$> length i) l k hl hk
      (a * total) (c * saved) phase =
        List.map (rescale a c) <$> scanFrom n value length l k hl hk total saved phase := by
  -- Both scans take the same branch: what is left of the budget has the same sign in both units.
  induction l, k, hl, hk, total, saved, phase using scanFrom.induct with
  | case1 l k hl hk total saved ihs ihg =>
    rw [scanFrom, scanFrom]
    simp only [bind_map_left, map_bind]
    refine bind_congr fun leg => bind_congr fun worth => ?_
    rw [← mul_sub, ← mul_add]
    by_cases hclosed : k + 1 = n
    · simp [hclosed]
    rw [dif_neg hclosed, dif_neg hclosed]
    by_cases hneg : saved - leg < 0
    · rw [if_pos hneg, if_pos (mul_neg_of_pos_of_neg hc hneg), ihs leg worth hclosed]
    · rw [if_neg hneg, if_neg (not_lt.mpr (mul_nonneg hc.le (not_lt.mp hneg))),
        ihg leg worth hclosed]
      simp [rescale_cons]
  | case2 l hl total saved hk =>
    rw [scanFrom, scanFrom]
    simp
  | case3 l k hl hk total saved hk0 ihg ihs =>
    rw [scanFrom, scanFrom, dif_neg hk0, dif_neg hk0]
    simp only [bind_map_left, map_bind]
    refine bind_congr fun leg => bind_congr fun worth => ?_
    rw [← mul_add, ← mul_sub]
    by_cases hpos : 0 < saved + leg
    · rw [if_pos hpos, if_pos (mul_pos hc hpos)]
      by_cases hlast : l + 1 = n
      · simp [hlast, rescale]
      · rw [dif_neg hlast, dif_neg hlast, ihg leg worth hlast]
        simp [rescale_cons]
    · rw [if_neg hpos, if_neg (not_lt.mpr (mul_nonpos_of_nonneg_of_nonpos hc.le (not_lt.mp hpos)))]
      by_cases hlast : l + 1 = n
      · simp [hlast]
      · rw [dif_neg hlast, dif_neg hlast, ihs leg worth hlast]

theorem beats_rescale (ha : 0 < a) (hc : 0 < c) (w z : Window ℚ) :
    (w.rescale a c).beats (z.rescale a c) = w.beats z := by
  simp only [beats, rescale, mul_lt_mul_iff_right₀ ha, mul_lt_mul_iff_right₀ hc]
  congr 2
  simp [ha.ne']

theorem best_rescale (ha : 0 < a) (hc : 0 < c) (first : Window ℚ) (later : List (Window ℚ)) :
    best (first.rescale a c) (later.map (rescale a c)) = (best first later).rescale a c := by
  induction later generalizing first with
  | nil => rfl
  | cons w later ih =>
    rw [List.map_cons, best_cons, best_cons, beats_rescale ha hc, ← ih]
    split
    · rfl
    · rfl

end Window

namespace Network

variable {n : ℕ} {a c : ℚ}

/-- A network in other units: one old unit of value is `a` new ones, and one of length `c`. -/
def rescale (N : Network ℚ n) (a c : ℚ) (hc : 0 < c) : Network ℚ n where
  weights :=
    { rows := Vector.ofFn fun i => Vector.ofFn fun j => c * N.weight i j
      size_pos := N.size_pos
      diagonal := by
        intro i
        have hzero : N.weight i i = 0 := beq_iff_eq.mp (N.weights.diagonal i)
        simp [hzero]
      defined := fun i j _ => Scalar.isUndefined_rational _
      nonzero := by
        intro i j hij
        have hne : N.weight i j ≠ 0 := beq_eq_false_iff_ne.mp (N.weights.nonzero i j hij)
        simp [hne, hc.ne'] }
  values := Vector.ofFn fun i => a * N.value i
  budget := c * N.budget
  budget_defined := Scalar.isUndefined_rational _
  budget_nonneg := not_lt.mpr (mul_nonneg hc.le (not_lt.mp N.budget_nonneg))

variable (N : Network ℚ n) (hc : 0 < c) (r : Route n)

@[simp] theorem weight_rescale (i j : Fin n) :
    (N.rescale a c hc).weight i j = c * N.weight i j := by
  simp [rescale, weight, Weights.between]

@[simp] theorem value_rescale (i : Fin n) : (N.rescale a c hc).value i = a * N.value i := by
  simp [rescale, value]

@[simp] theorem budget_rescale : (N.rescale a c hc).budget = c * N.budget := rfl

theorem edge_rescale (x y : Lookup n) :
    (N.rescale a c hc).edge x y = (c * ·) <$> N.edge x y := by
  cases x with
  | unusable fault => rfl
  | outside =>
    cases y with
    | city j | outside | unusable fault => rfl
  | city i =>
    cases y with
    | city j => exact congrArg Except.ok (N.weight_rescale hc i j)
    | outside | unusable fault => rfl

theorem valueOn_rescale (k : ℕ) :
    (N.rescale a c hc).valueOn r k = (a * ·) <$> N.valueOn r k := by
  unfold valueOn
  cases cityOn r k with
  | city i => exact congrArg Except.ok (N.value_rescale hc i)
  | outside | unusable fault => rfl

theorem scan_rescale : (N.rescale a c hc).scan r =
    (fun ws => (ws.1.rescale a c, ws.2.map (Window.rescale a c))) <$> N.scan r := by
  have hvalue : (N.rescale a c hc).valueOn r = fun k => (a * ·) <$> N.valueOn r k :=
    funext (N.valueOn_rescale hc r)
  have hlength : (N.rescale a c hc).lengthOn r = fun k => (c * ·) <$> N.lengthOn r k :=
    funext fun k => N.edge_rescale hc _ _
  unfold scan
  split
  · rw [hvalue, hlength, Window.scan, Window.scan]
    simp only [bind_map_left, map_bind]
    refine bind_congr fun start => ?_
    rw [budget_rescale, Window.scanFrom_rescale hc]
    simp [Window.rescale]
  · rfl

theorem windows_rescale : (N.rescale a c hc).windows r =
    List.map (Window.rescale a c) <$> N.windows r := by
  rw [windows, windows, scan_rescale]
  cases N.scan r with
  | ok ws => rfl
  | error fault => rfl

theorem bestWindow_rescale (ha : 0 < a) : (N.rescale a c hc).bestWindow r =
    Window.rescale a c <$> N.bestWindow r := by
  rw [bestWindow, bestWindow, scan_rescale]
  cases N.scan r with
  | ok ws =>
    have hbest := Window.best_rescale ha hc ws.1 ws.2
    exact congrArg (fun w : Window ℚ =>
      Except.ok { w with left := w.left % n, right := w.right % n }) hbest
  | error fault => rfl

theorem leastValue_rescale : (N.rescale 1 c hc).leastValue = N.leastValue := by
  have hvalues : (N.rescale 1 c hc).values = N.values := by
    ext i hi
    simp [rescale, value, Vector.get]
  rw [leastValue, leastValue, hvalues]

end Network

namespace Problem

variable (p : Problem ℚ) {a c : ℚ}

/-- The problem with its network in other units. -/
def rescale (a c : ℚ) (hc : 0 < c) : Problem ℚ := { p with network := p.network.rescale a c hc }

theorem residual_rescale (hc : 0 < c) (saved : ℚ) :
    (p.rescale a c hc).residual (c * saved) = p.residual saved := by
  -- A budget of zero is zero in every unit, so both take the branch that does not divide.
  show (if c * p.network.budget == 0 then (0 : ℚ) else c * saved / (c * p.network.budget)) = _
  rw [residual, mul_div_mul_left _ _ hc.ne']
  by_cases hzero : p.network.budget = 0
  · simp [hzero]
  · simp [hzero, hc.ne']

theorem fitness_rescale (hc : 0 < c) (value saved : ℚ) :
    (p.rescale 1 c hc).fitness value (c * saved) = p.fitness value saved := by
  have hleast : (p.rescale 1 c hc).network.leastValue = p.network.leastValue :=
    p.network.leastValue_rescale hc
  rw [fitness, fitness, hleast, residual_rescale]
  rfl

theorem bestWindow_rescale (ha : 0 < a) (hc : 0 < c) (x : List ℚ) :
    (p.rescale a c hc).bestWindow x = Window.rescale a c <$> p.bestWindow x := by
  have hdecode : (p.rescale a c hc).decode x = p.decode x := rfl
  rw [bestWindow, bestWindow, hdecode, map_bind]
  exact bind_congr fun tour => p.network.bestWindow_rescale hc _ ha

theorem evaluateFitness_rescale (hc : 0 < c) (x : List ℚ) :
    (p.rescale 1 c hc).evaluateFitness x = p.evaluateFitness x := by
  rw [evaluateFitness, evaluateFitness, bestWindow_rescale p one_pos, bind_map_left]
  refine bind_congr fun w => ?_
  show Except.ok ((p.rescale 1 c hc).fitness (1 * w.value) (c * w.saved)) = _
  rw [one_mul, fitness_rescale]
  rfl

/-- In other units of value and of length, the scan of a tour lists the same windows with their
values and budgets left in the new units, and chooses the same one.  In another unit of length every
chromosome has the same fitness, also where there is no budget to save from. -/
theorem windows_of_units (p : Problem ℚ) {a c : ℚ} (ha : 0 < a) (hc : 0 < c) :
    (∀ tour, tour.length = p.size → NamesCities p.size tour → ∃ ws w,
      p.network.windows (Route.ofTour p.size tour) = .ok ws ∧
      (p.network.rescale a c hc).windows (Route.ofTour p.size tour) =
        .ok (ws.map (Window.rescale a c)) ∧
      p.network.bestWindow (Route.ofTour p.size tour) = .ok w ∧
      (p.network.rescale a c hc).bestWindow (Route.ofTour p.size tour) =
        .ok (w.rescale a c)) ∧
    ∀ x, (p.rescale 1 c hc).evaluateFitness x = p.evaluateFitness x := by
  refine ⟨?_, p.evaluateFitness_rescale hc⟩
  intro tour hlen hnames
  obtain ⟨⟨first, later⟩, hscan⟩ := p.network.exists_scan hlen hnames
  have hwindows := Network.windows_of_scan hscan
  have hbest := Network.bestWindow_of_scan hscan
  refine ⟨_, _, hwindows, ?_, hbest, ?_⟩
  · rw [Network.windows_rescale, hwindows]
    rfl
  · rw [Network.bestWindow_rescale _ hc _ ha, hbest]
    rfl

/-- On the slope, with a tour that passes a city twice, and on the ring without any budget. -/
theorem windows_of_units_slope : (0 : ℚ) < 3 ∧ ∃ hc : (0 : ℚ) < 1 / 2,
    NamesCities 3 [2, -1, 1] ∧ (∃ ws w,
      Network.slope.windows (Route.ofTour 3 [2, -1, 1]) = .ok ws ∧
      (Network.slope.rescale 3 (1 / 2) hc).windows (Route.ofTour 3 [2, -1, 1]) =
        .ok (ws.map (Window.rescale 3 (1 / 2))) ∧
      Network.slope.bestWindow (Route.ofTour 3 [2, -1, 1]) = .ok w ∧
      (Network.slope.rescale 3 (1 / 2) hc).bestWindow (Route.ofTour 3 [2, -1, 1]) =
        .ok (w.rescale 3 (1 / 2))) ∧
    ∀ e x, (rescale ⟨4, Network.ring 0, e⟩ 1 (1 / 2) hc).evaluateFitness x =
      (⟨4, Network.ring 0, e⟩ : Problem ℚ).evaluateFitness x := by
  have ha : (0 : ℚ) < 3 := three_pos
  have hc : (0 : ℚ) < 1 / 2 := one_half_pos
  have hnames : NamesCities 3 [2, -1, 1] := by decide
  obtain ⟨hscans, -⟩ := windows_of_units ⟨3, Network.slope, .cities⟩ ha hc
  exact ⟨ha, hc, hnames, hscans [2, -1, 1] rfl hnames,
    fun e => (windows_of_units ⟨4, Network.ring 0, e⟩ ha hc).2⟩

end Problem

end CityTour
