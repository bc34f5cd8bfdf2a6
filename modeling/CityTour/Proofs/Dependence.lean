import Mathlib
import CityTour.Proofs.ClosedWalk
import CityTour.Proofs.Route
import CityTour.Proofs.Window.Loop

/-! What the scan of a tour depends on, for any numbers and however they are rounded.  Two scans
with the same lengths run in step: their pointers and the budgets that they leave are the same
while the values that they add up may differ, as no turn looks at a value to decide what to do
next.  So only the edges along the tour and the values of its cities count, and neither the names
of the cities nor the end from which an entry of the tour counts them. -/

namespace CityTour

namespace Window

variable {α : Type}

/-- What a window is without its value: its ends and the budget that it leaves. -/
def outline (w : Window α) : ℕ × ℕ × α := (w.left, w.right, w.saved)

theorem outline_eq_iff {w z : Window α} :
    w.outline = z.outline ↔ w.left = z.left ∧ w.right = z.right ∧ w.saved = z.saved := by
  simp [outline]

variable [Scalar α]

/-- What a turn does without the values of the windows. -/
def Turn.outline (t : Turn α) : Option (ℕ × ℕ × α) × Option ((ℕ × ℕ × α) × Phase) :=
  (t.listed.map Window.outline, t.next.map fun state => (state.1.outline, state.2))

variable {n : ℕ} {v u len : ℕ → α} {w z : Window α}

theorem outline_grow (h : w.outline = z.outline) :
    (w.grow v len).outline = (z.grow u len).outline := by
  obtain ⟨hleft, hright, hsaved⟩ := outline_eq_iff.mp h
  simp only [grow, outline, hleft, hright, hsaved]

theorem outline_shrink (h : w.outline = z.outline) :
    (w.shrink v len).outline = (z.shrink u len).outline := by
  obtain ⟨hleft, hright, hsaved⟩ := outline_eq_iff.mp h
  simp only [shrink, outline, hleft, hright, hsaved]

/-- A turn does the same whatever the values are. -/
theorem outline_turn (h : w.outline = z.outline) (phase : Phase) :
    (turn n v len w phase).outline = (turn n u len z phase).outline := by
  obtain ⟨hleft, hright, -⟩ := outline_eq_iff.mp h
  cases phase with
  | growing =>
    have hgrow : (w.grow v len).outline = (z.grow u len).outline := outline_grow h
    have hsaved := (outline_eq_iff.mp hgrow).2.2
    by_cases hstop : (w.grow v len).saved < 0 ∨ w.left % n = (w.right + 1) % n
    · have hstop' : (z.grow u len).saved < 0 ∨ z.left % n = (z.right + 1) % n := by
        rwa [← hsaved, ← hleft, ← hright]
      rw [turn_stop_growing hstop, turn_stop_growing hstop']
      simp [Turn.outline, hgrow]
    · have hgo := not_or.mp hstop
      have hgo' : ¬ (z.grow u len).saved < 0 ∧ ¬ z.left % n = (z.right + 1) % n := by
        rwa [← hsaved, ← hleft, ← hright]
      rw [turn_grow hgo.1 hgo.2, turn_grow hgo'.1 hgo'.2]
      simp [Turn.outline, hgrow]
  | shrinking =>
    have hshrink : (w.shrink v len).outline = (z.shrink u len).outline := outline_shrink h
    have hsaved := (outline_eq_iff.mp hshrink).2.2
    by_cases hmeet : w.left % n = w.right % n
    · rw [turn_meet hmeet, turn_meet (by rwa [← hleft, ← hright])]
    have hmeet' : ¬ z.left % n = z.right % n := by rwa [← hleft, ← hright]
    by_cases hpos : 0 < (w.shrink v len).saved
    · rw [turn_free hmeet hpos, turn_free hmeet' (by rwa [← hsaved]), ← hleft]
      by_cases hlast : w.left + 1 = n
      · simp [Turn.outline, hlast, hshrink]
      · simp [Turn.outline, hlast, hshrink]
    · rw [turn_shrink hmeet hpos, turn_shrink hmeet' (by rwa [← hsaved]), ← hleft]
      by_cases hlast : w.left + 1 = n
      · simp [Turn.outline, hlast]
      · simp [Turn.outline, hlast, hshrink]

/-- The loop lists the same windows but for their values, whatever the values are. -/
theorem outline_loop (h : w.outline = z.outline) (phase : Phase) (turns : ℕ) :
    (loop n v len turns w phase).map (List.map outline) =
      (loop n u len turns z phase).map (List.map outline) := by
  induction turns generalizing w z phase with
  | zero => rfl
  | succ turns ih =>
    have hturn : (turn n v len w phase).outline = (turn n u len z phase).outline :=
      outline_turn h phase
    rw [loop, loop]
    generalize turn n v len w phase = t at hturn
    generalize turn n u len z phase = t' at hturn
    obtain ⟨hlisted, hnext⟩ := Prod.ext_iff.mp hturn
    have hlist : t.listed.toList.map outline = t'.listed.toList.map outline := by
      rw [← Option.toList_map, ← Option.toList_map]
      exact congrArg Option.toList hlisted
    obtain ⟨listed, next⟩ := t
    obtain ⟨listed', next'⟩ := t'
    cases next with
    | none =>
      obtain rfl : next' = none := Option.map_eq_none_iff.mp hnext.symm
      exact congrArg some hlist
    | some state =>
      obtain ⟨state', rfl, hstate⟩ := Option.map_eq_some_iff.mp hnext.symm
      obtain ⟨hwindow, hphase⟩ := Prod.ext_iff.mp hstate
      have hrest := ih hwindow.symm state.2
      have hjoin : ∀ listed : List (Window α), List.map outline ∘ (listed ++ ·) =
          (listed.map outline ++ ·) ∘ List.map outline := by
        intro listed
        funext ws
        exact List.map_append
      dsimp only at hphase hlist ⊢
      rw [hphase, Option.map_map, Option.map_map, hjoin, hjoin, hlist, ← Option.map_map, hrest,
        Option.map_map]

end Window

namespace Network

variable {α : Type} [Scalar α] {n : ℕ} (N M : Network α n)

/-- Two tours of two networks with the same budget and the same edges, one after the other. -/
structure SameLegs (r s : Route n) : Prop where
  budget_eq : N.budget = M.budget
  lengthOn_eq : ∀ k < n, N.lengthOn r k = M.lengthOn s k

/-- Two tours of two networks with the same windows, the same best window and the same length. -/
structure SameScan (r s : Route n) : Prop where
  windows_eq : N.windows r = M.windows s
  bestWindow_eq : N.bestWindow r = M.bestWindow s
  closedLength_eq : N.closedLength r = M.closedLength s

/-- A network with its cities renamed. -/
def relabel (σ : Equiv.Perm (Fin n)) : Network α n where
  weights :=
    { rows := Vector.ofFn fun i => Vector.ofFn fun j => N.weight (σ.symm i) (σ.symm j)
      size_pos := N.size_pos
      diagonal := fun i => by simpa [weight, Weights.between] using N.weights.diagonal (σ.symm i)
      defined := fun i j h => by
        simpa [weight, Weights.between] using N.weights.defined _ _ (σ.symm.injective.ne h)
      nonzero := fun i j h => by
        simpa [weight, Weights.between] using N.weights.nonzero _ _ (σ.symm.injective.ne h) }
  values := Vector.ofFn fun i => N.value (σ.symm i)
  budget := N.budget
  budget_defined := N.budget_defined
  budget_nonneg := N.budget_nonneg

/-- Two tours of which the second names, at every place, the city that the first one's is renamed
to. -/
def Renamed (σ : Equiv.Perm (Fin n)) (tour renamed : List ℤ) : Prop :=
  List.Forall₂ (fun i j => cityAt? n j = (cityAt? n i).map σ) tour renamed

variable {N M} {c d : Fin n → Fin n}

theorem weight_relabel (σ : Equiv.Perm (Fin n)) (i j : Fin n) :
    (N.relabel σ).weight (σ i) (σ j) = N.weight i j := by
  simp [relabel, weight, Weights.between]

theorem value_relabel (σ : Equiv.Perm (Fin n)) (i : Fin n) :
    (N.relabel σ).value (σ i) = N.value i := by
  simp [relabel, value]

theorem SameLegs.legAt_eq
    (h : N.SameLegs M (Route.ofTour n (tourOf c)) (Route.ofTour n (tourOf d))) :
    N.legAt c = M.legAt d := by
  funext k
  have hk := h.lengthOn_eq (k % n) (Nat.mod_lt k N.size_pos)
  rw [lengthOn_tourOf, lengthOn_tourOf, legAt_mod, legAt_mod] at hk
  exact Except.ok.inj hk

theorem circuit_congr (h : N.legAt c = M.legAt d) : N.circuit c = M.circuit d := by
  rw [circuit, circuit, h]

/-- Walks with the same budget and the same legs have the same windows but for the values. -/
theorem outline_windows (hbudget : N.budget = M.budget) (hlegs : N.legAt c = M.legAt d) :
    ∃ ws zs, N.windows (Route.ofTour n (tourOf c)) = .ok ws ∧
      M.windows (Route.ofTour n (tourOf d)) = .ok zs ∧
      ws.map Window.outline = zs.map Window.outline := by
  have hn := N.size_pos
  obtain ⟨ws, hscan, hloop⟩ := Window.scanFrom_eq_loop (m := Except Fault) (N.worthAt c)
    (N.legAt c) 0 0 hn hn (N.worthAt c 0) N.budget .growing (3 * n) (by omega)
  obtain ⟨zs, hscan', hloop'⟩ := Window.scanFrom_eq_loop (m := Except Fault) (M.worthAt d)
    (M.legAt d) 0 0 hn hn (M.worthAt d 0) M.budget .growing (3 * n) (by omega)
  have hfirst : (⟨0, 0, N.worthAt c 0, N.budget⟩ : Window α).outline =
      (⟨0, 0, M.worthAt d 0, M.budget⟩ : Window α).outline := by
    simp [Window.outline, hbudget]
  have hsame : (Window.loop n (N.worthAt c) (M.legAt d) (3 * n) ⟨0, 0, N.worthAt c 0, N.budget⟩
      .growing).map (List.map Window.outline) =
        (Window.loop n (M.worthAt d) (M.legAt d) (3 * n) ⟨0, 0, M.worthAt d 0, M.budget⟩
          .growing).map (List.map Window.outline) := Window.outline_loop hfirst .growing (3 * n)
  rw [hlegs] at hloop
  rw [hloop, hloop'] at hsame
  refine ⟨_, _, by rw [windows, scan_tourOf_eq, hscan]; rfl,
    by rw [windows, scan_tourOf_eq, hscan']; rfl, ?_⟩
  rw [List.map_cons, List.map_cons, hfirst, Option.some.inj hsame]

/-- Walks with the same budget, the same legs and the same values have the same scan. -/
theorem sameScan_of_walk (hbudget : N.budget = M.budget) (hlegs : N.legAt c = M.legAt d)
    (hworth : N.worthAt c = M.worthAt d) :
    N.SameScan M (Route.ofTour n (tourOf c)) (Route.ofTour n (tourOf d)) := by
  have hscan : N.scan (Route.ofTour n (tourOf c)) = M.scan (Route.ofTour n (tourOf d)) := by
    rw [scan_tourOf_eq, scan_tourOf_eq, hbudget, hlegs, hworth]
  constructor
  · rw [windows, windows, hscan]
  · rw [bestWindow, bestWindow, hscan]
  · rw [closedLength_tourOf, closedLength_tourOf, circuit_congr hlegs]

theorem sameScan_relabel (σ : Equiv.Perm (Fin n)) (c : Fin n → Fin n) :
    N.SameScan (N.relabel σ) (Route.ofTour n (tourOf c)) (Route.ofTour n (tourOf (σ ∘ c))) := by
  apply sameScan_of_walk
  · rfl
  · funext k
    exact (weight_relabel σ _ _).symm
  · funext k
    exact (value_relabel σ _).symm

theorem Renamed.ofTour_eq {σ : Equiv.Perm (Fin n)} {tour renamed : List ℤ}
    (h : Renamed σ tour renamed) (hlen : tour.length = n)
    (hroute : Route.ofTour n tour = Route.ofTour n (tourOf c)) :
    Route.ofTour n renamed = Route.ofTour n (tourOf (σ ∘ c)) := by
  obtain ⟨hsize, hentry⟩ := List.forall₂_iff_get.mp h
  rw [ofTour_eq_tourOf_iff (hsize.symm.trans hlen)]
  intro k
  have hk := hentry k.val (hlen ▸ k.isLt) (hsize ▸ hlen ▸ k.isLt)
  have hcity := (ofTour_eq_tourOf_iff hlen).mp hroute k
  exact hk.trans (congrArg (Option.map σ) hcity)

/-- An entry counted from the first city and the same one counted from the last. -/
theorem ofInt_sub_size {i : ℤ} (h0 : 0 ≤ i) (hn : i < n) :
    Lookup.ofInt n (i - n) = Lookup.ofInt n i := by
  have hcity : cityAt? n (i - n) = cityAt? n i := by
    rw [cityAt?, cityAt?, dif_neg (by omega), dif_pos (by omega), dif_pos (by omega)]
    simp
  rw [Lookup.ofInt_eq_city_iff.mpr (hcity.trans (dif_pos ⟨h0, hn⟩)),
    Lookup.ofInt_eq_city_iff.mpr (dif_pos ⟨h0, hn⟩)]

section Tours

variable {tour other : List ℤ} (hlen : tour.length = n) (hnames : NamesCities n tour)

include hlen hnames

theorem Renamed.sameScan {σ : Equiv.Perm (Fin n)} (h : Renamed σ tour other) :
    N.SameScan (N.relabel σ) (Route.ofTour n tour) (Route.ofTour n other) := by
  obtain ⟨c, hroute⟩ := exists_tourOf hlen hnames
  rw [h.ofTour_eq hlen hroute, hroute]
  exact sameScan_relabel σ c

variable (hlen' : other.length = n) (hnames' : NamesCities n other)
  (h : N.SameLegs M (Route.ofTour n tour) (Route.ofTour n other))

include hlen' hnames' h

theorem SameLegs.exists_walks : ∃ c d, Route.ofTour n tour = Route.ofTour n (tourOf c) ∧
    Route.ofTour n other = Route.ofTour n (tourOf d) ∧ N.legAt c = M.legAt d := by
  obtain ⟨c, hroute⟩ := exists_tourOf hlen hnames
  obtain ⟨d, hroute'⟩ := exists_tourOf hlen' hnames'
  rw [hroute, hroute'] at h
  exact ⟨c, d, hroute, hroute', h.legAt_eq⟩

theorem SameLegs.exists_outline_eq : ∃ ws zs, N.windows (Route.ofTour n tour) = .ok ws ∧
    M.windows (Route.ofTour n other) = .ok zs ∧
    ws.map Window.outline = zs.map Window.outline := by
  obtain ⟨c, d, hroute, hroute', hlegs⟩ := h.exists_walks hlen hnames hlen' hnames'
  rw [hroute, hroute']
  exact outline_windows h.budget_eq hlegs

theorem SameLegs.closedLength_eq :
    N.closedLength (Route.ofTour n tour) = M.closedLength (Route.ofTour n other) := by
  obtain ⟨c, d, hroute, hroute', hlegs⟩ := h.exists_walks hlen hnames hlen' hnames'
  rw [hroute, hroute', closedLength_tourOf, closedLength_tourOf, circuit_congr hlegs]

theorem SameLegs.sameScan (hvalues : ∀ k < n,
      N.valueOn (Route.ofTour n tour) k = M.valueOn (Route.ofTour n other) k) :
    N.SameScan M (Route.ofTour n tour) (Route.ofTour n other) := by
  obtain ⟨c, d, hroute, hroute', hlegs⟩ := h.exists_walks hlen hnames hlen' hnames'
  rw [hroute, hroute'] at hvalues ⊢
  apply sameScan_of_walk h.budget_eq hlegs
  funext k
  have hk := hvalues (k % n) (Nat.mod_lt k N.size_pos)
  rw [valueOn_tourOf, valueOn_tourOf, worthAt_mod, worthAt_mod] at hk
  exact Except.ok.inj hk

end Tours

theorem sameScan_sub_size {before after : List ℤ} {i : ℤ}
    (hnames : NamesCities n (before ++ i :: after)) (h0 : 0 ≤ i) :
    N.SameScan N (Route.ofTour n (before ++ i :: after))
      (Route.ofTour n (before ++ (i - n) :: after)) := by
  have hi : i < n := (hnames i (by simp)).2
  have hback : Route.ofTour n (before ++ (i - n) :: after) =
      Route.ofTour n (before ++ i :: after) := by
    simp only [Route.ofTour, List.map_append, List.map_cons, ofInt_sub_size h0 hi]
  rw [hback]
  exact ⟨rfl, rfl, rfl⟩

/-- The windows of a tour are determined, but for their values, by the budget and the edges along
the tour, and so is its length; with the values of its cities the windows are determined entirely
and with them the best one.  Renaming the cities changes nothing, nor does counting one of them
from the last city back. -/
theorem windows_determined (N : Network α n) {tour : List ℤ} (hlen : tour.length = n)
    (hnames : NamesCities n tour) :
    (∀ (M : Network α n) (other : List ℤ), other.length = n → NamesCities n other →
      N.SameLegs M (Route.ofTour n tour) (Route.ofTour n other) →
      (∃ ws zs, N.windows (Route.ofTour n tour) = .ok ws ∧
        M.windows (Route.ofTour n other) = .ok zs ∧
        ws.map Window.outline = zs.map Window.outline) ∧
      N.closedLength (Route.ofTour n tour) = M.closedLength (Route.ofTour n other) ∧
      ((∀ k < n, N.valueOn (Route.ofTour n tour) k = M.valueOn (Route.ofTour n other) k) →
        N.SameScan M (Route.ofTour n tour) (Route.ofTour n other))) ∧
    (∀ (σ : Equiv.Perm (Fin n)) (renamed : List ℤ), Renamed σ tour renamed →
      N.SameScan (N.relabel σ) (Route.ofTour n tour) (Route.ofTour n renamed)) ∧
    ∀ (before after : List ℤ) (i : ℤ), tour = before ++ i :: after → 0 ≤ i →
      N.SameScan N (Route.ofTour n tour) (Route.ofTour n (before ++ (i - n) :: after)) := by
  refine ⟨?_, ?_, ?_⟩
  · intro M other hlen' hnames' hsame
    exact ⟨hsame.exists_outline_eq hlen hnames hlen' hnames',
      hsame.closedLength_eq hlen hnames hlen' hnames', hsame.sameScan hlen hnames hlen' hnames'⟩
  · intro σ renamed h
    exact h.sameScan hlen hnames
  · rintro before after i rfl h0
    exact sameScan_sub_size hnames h0

/-- The edges of `triangle` along the tour of its three cities, with other weights off the tour and
other values, of which one is no number. -/
def lopsided : Network Float 3 where
  weights :=
    { rows := #v[#v[0, 1, -5], #v[Double.infinity false, 0, 1], #v[1, 0.25, 0]]
      size_pos := three_pos
      diagonal := by decide +kernel
      defined := by decide +kernel
      nonzero := by decide +kernel }
  values := #v[2, Double.undefined, -1]
  budget := 1
  budget_defined := triangle.budget_defined
  budget_nonneg := triangle.budget_nonneg

/-- The tours of two networks with the same edges along them, and a tour of renamed cities. -/
theorem windows_determined_lopsided :
    ([0, 1, 2] : List ℤ).length = 3 ∧ NamesCities 3 [0, 1, 2] ∧
    (∃ ws zs, lopsided.windows (Route.ofTour 3 [0, 1, 2]) = .ok ws ∧
      triangle.windows (Route.ofTour 3 [0, 1, 2]) = .ok zs ∧
      ws.map Window.outline = zs.map Window.outline) ∧
    lopsided.SameScan (lopsided.relabel (Equiv.swap 0 2)) (Route.ofTour 3 [0, 1, 2])
      (Route.ofTour 3 [2, 1, 0]) ∧
    lopsided.SameScan lopsided (Route.ofTour 3 [0, 1, 2]) (Route.ofTour 3 [0, 1, -1]) := by
  have hlen : ([0, 1, 2] : List ℤ).length = 3 := rfl
  have hnames : NamesCities 3 [0, 1, 2] := by decide
  have hlegs : lopsided.SameLegs triangle (Route.ofTour 3 [0, 1, 2]) (Route.ofTour 3 [0, 1, 2]) :=
    by
    have hweight : ∀ i : Fin 3, lopsided.weight i (i + 1) = triangle.weight i (i + 1) := by
      decide +kernel
    refine ⟨rfl, ?_⟩
    intro k hk
    interval_cases k
    · exact congrArg Except.ok (hweight 0)
    · exact congrArg Except.ok (hweight 1)
    · exact congrArg Except.ok (hweight 2)
  have hrenamed : Renamed (Equiv.swap (0 : Fin 3) 2) [0, 1, 2] [2, 1, 0] := by
    refine .cons ?_ (.cons ?_ (.cons ?_ .nil))
    all_goals decide +kernel
  obtain ⟨hlegal, hrelabel, hback⟩ := windows_determined lopsided hlen hnames
  exact ⟨hlen, hnames, (hlegal triangle [0, 1, 2] hlen hnames hlegs).1,
    hrelabel (Equiv.swap 0 2) [2, 1, 0] hrenamed, hback [0, 1] [] 2 rfl (by decide)⟩

end Network

end CityTour
