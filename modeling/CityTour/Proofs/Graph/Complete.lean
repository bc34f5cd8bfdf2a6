import Mathlib
import CityTour.Proofs.Graph.Reals
import CityTour.Proofs.Validation

/-! Which graphs form a network.  The weights between the nodes in order are those that the
insertions leave behind, zero where there is no edge; so a graph passes the checks of a network
exactly if it is complete, and graphs that agree in the end form the same network, in whatever
order they were built (`ofGraphValues_outcome`). -/

namespace CityTour

open Document Scalar

namespace Graph

/-- Every two nodes are joined by an edge that weighs something, either way, and a node is joined to
itself by nothing but weights of zero. -/
structure Complete (g : Graph Float) : Prop where
  joined : ∀ u ∈ g.labels, ∀ v ∈ g.labels, u ≠ v →
    ∃ w, g.lastWeight 1 u v = some w ∧ (w == 0) = false ∧ isUndefined w = false
  loops : ∀ u ∈ g.labels, ∀ w, g.lastWeight 1 u u = some w → (w == 0) = true

/-- Two graphs hold the same in the end. -/
structure Agree (g h : Graph Float) : Prop where
  labels : ∀ l, l ∈ g.labels ↔ l ∈ h.labels
  weights : ∀ u v, g.lastWeight 1 u v = h.lastWeight 1 u v
  values : ∀ l ∈ g.labels, (g.lastValue l).getD 1 = (h.lastValue l).getD 1

variable {g : Graph Float} {order : List Label}

/-! ### The rows of a graph -/

/-- The weights between the nodes in a given order, zero where there is no edge. -/
def rows (g : Graph Float) (order : List Label) :
    Vector (Vector Float order.length) order.length :=
  Vector.ofFn fun i => Vector.ofFn fun j => (g.lastWeight 1 (order.get i) (order.get j)).getD 0

theorem get_rows (g : Graph Float) (i j : Fin order.length) :
    ((g.rows order).get i).get j = (g.lastWeight 1 (order.get i) (order.get j)).getD 0 := by
  simp [rows, Vector.get_eq_getElem]

theorem weights_eq (hnodup : order.Nodup) (hmem : g.labels ⊆ order) :
    g.weights order 0 1 = .ofRows (g.rows order) := by
  refine Grid.ext_toList rfl ?_
  rw [toList_weights g hnodup hmem, Grid.ofRows, Vector.toList_cast, Grid.toList_flatten, rows,
    Vector.toList_ofFn, List.ofFn_eq_map, List.flatMap_map, ← flatMap_finRange_get]
  refine List.flatMap_congr fun i _ => ?_
  rw [Vector.toList_ofFn, List.ofFn_eq_map, ← map_finRange_get]
  simp only [weightBetween_eq]

/-! ### Complete graphs -/

theorem forall_get_iff (P : Label → Prop) (hperm : order.Perm g.labels) :
    (∀ i : Fin order.length, P (order.get i)) ↔ ∀ u ∈ g.labels, P u := by
  constructor
  · intro h u hu
    obtain ⟨i, rfl⟩ := List.get_of_mem (hperm.mem_iff.mpr hu)
    exact h i
  · exact fun h i => h _ (hperm.mem_iff.mp (order.get_mem i))

theorem forall_get_ne_iff (P : Label → Label → Prop) (hperm : order.Perm g.labels) :
    (∀ i j : Fin order.length, i ≠ j → P (order.get i) (order.get j)) ↔
      ∀ u ∈ g.labels, ∀ v ∈ g.labels, u ≠ v → P u v := by
  have hinj := get_injective (hperm.nodup_iff.mpr g.nodup_labels)
  simp only [← hinj.ne_iff]
  rw [← forall_get_iff (fun u => ∀ v ∈ g.labels, u ≠ v → P u v) hperm]
  exact forall_congr' fun i => forall_get_iff (fun v => order.get i ≠ v → P (order.get i) v) hperm

theorem zero_beq_zero : ((0 : Float) == 0) = true := by decide +kernel

theorem getD_nonzero_iff (weight : Option Float) :
    isUndefined (weight.getD 0) = false ∧ (weight.getD 0 == 0) = false ↔
      ∃ w, weight = some w ∧ (w == 0) = false ∧ isUndefined w = false := by
  cases weight with
  | none => simp [zero_beq_zero]
  | some w => simp [and_comm]

theorem getD_beq_zero_iff (weight : Option Float) :
    (weight.getD 0 == 0) = true ↔ ∀ w, weight = some w → (w == 0) = true := by
  cases weight with
  | none => simp [zero_beq_zero]
  | some w => simp

/-- The rows of a graph have zeros just on the diagonal if the graph is complete. -/
theorem complete_iff (hperm : order.Perm g.labels) :
    (∀ i, (((g.rows order).get i).get i == 0) = true) ∧
    (∀ i j, i ≠ j → isUndefined (((g.rows order).get i).get j) = false) ∧
    (∀ i j, i ≠ j → (((g.rows order).get i).get j == 0) = false) ↔ g.Complete := by
  have hjoined : (∀ i j : Fin order.length, i ≠ j →
      isUndefined (((g.rows order).get i).get j) = false) ∧
      (∀ i j, i ≠ j → (((g.rows order).get i).get j == 0) = false) ↔
      ∀ u ∈ g.labels, ∀ v ∈ g.labels, u ≠ v →
        ∃ w, g.lastWeight 1 u v = some w ∧ (w == 0) = false ∧ isUndefined w = false := by
    rw [← forall_get_ne_iff (fun u v => ∃ w, g.lastWeight 1 u v = some w ∧ (w == 0) = false ∧
      isUndefined w = false) hperm]
    simp only [get_rows, ← getD_nonzero_iff, imp_and, forall_and]
  have hloops : (∀ i : Fin order.length, (((g.rows order).get i).get i == 0) = true) ↔
      ∀ u ∈ g.labels, ∀ w, g.lastWeight 1 u u = some w → (w == 0) = true := by
    rw [← forall_get_iff (fun u => ∀ w, g.lastWeight 1 u u = some w → (w == 0) = true) hperm]
    simp only [get_rows, getD_beq_zero_iff]
  rw [hloops, hjoined]
  exact ⟨fun h => ⟨h.2, h.1⟩, fun h => ⟨h.loops, h.joined⟩⟩

end Graph

namespace Network

variable {g h : Graph Float} {order : List Label} {b : Float}

theorem isUndefined_of_nonneg (hb : 0 ≤ b) : isUndefined b = false := by
  refine Double.isUndefined_eq_false.mpr ((Double.beq_self_iff b).mpr fun hundefined => ?_)
  exact (Double.incomparable_of_undefined (.inr hundefined)).1 hb

theorem conditions_iff (hperm : order.Perm g.labels) (hb : 0 ≤ b) :
    (∀ c ∈ conditions (.ofRows (g.rows order)) (g.values order 1) b, c.1) ↔
      order ≠ [] ∧ g.Complete := by
  -- The count of values and the budget are right in any case.
  have hrest : ∀ c ∈ [((g.values order 1).length = order.length, Refusal.valueCount),
      (isUndefined b = false ∧ 0 ≤ b, .badBudget)], c.1 := by
    have hlength : (g.values order 1).length = order.length := by
      rw [Graph.values_eq g (hperm.nodup_iff.mpr g.nodup_labels), List.length_map]
    simpa [hlength] using ⟨isUndefined_of_nonneg hb, hb⟩
  have hnonempty : 0 < order.length ↔ order ≠ [] := List.length_pos_iff
  rw [conditions, List.forall_mem_append, Weights.forall_conditions_ofRows,
    Graph.complete_iff hperm, hnonempty]
  exact and_iff_left hrest

/-- The cities of a network are the nodes of a graph in the given order, with their values, and its
weights are those between the nodes. -/
structure Describes {n : ℕ} (N : Network Float n) (g : Graph Float) (order : List Label) :
    Prop where
  size : n = order.length
  weight : ∀ (i j : Fin n) (u v : Label), order[i.val]? = some u → order[j.val]? = some v →
    N.weight i j = (g.lastWeight 1 u v).getD 0
  value : ∀ (i : Fin n) (u : Label), order[i.val]? = some u →
    N.value i = (g.lastValue u).getD 1

theorem describes_of_holds {n : ℕ} {N : Network Float n} (hnodup : order.Nodup)
    (h : N.Holds (.ofRows (g.rows order)) (g.values order 1) b) : N.Describes g order := by
  obtain ⟨hrows, hvalues, -⟩ := h
  obtain rfl : n = order.length := congrArg Grid.side hrows
  have hget : ∀ (i : Fin order.length) (u : Label), order[i.val]? = some u → order.get i = u := by
    intro i u hu
    exact Option.some.inj ((List.getElem?_eq_getElem i.isLt).symm.trans hu)
  refine ⟨rfl, fun i j u v hu hv => ?_, fun i u hu => ?_⟩
  · have hentry := Grid.entryAt_ofRows N.weights.rows i j
    rw [hrows, Grid.entryAt_ofRows, Graph.get_rows, hget i u hu, hget j v hv] at hentry
    exact (Except.ok.inj hentry).symm
  · have hentry : N.values.toList[i.val]? = some (N.value i) := by
      simp [value, Vector.get_eq_getElem]
    rw [hvalues, Graph.values_eq g hnodup, List.getElem?_map, hu] at hentry
    exact (Option.some.inj hentry).symm

theorem ofGraph_eq (hsort : Label.sort g.labels = .ok order) :
    ofGraph g b = ofGrids? (.ofRows (g.rows order)) (.ofList (g.values order 1)) b := by
  obtain ⟨hperm, -⟩ := Label.sorted_of_sort hsort
  rw [ofGraph, hsort, ok_bind,
    Graph.weights_eq (hperm.nodup_iff.mpr g.nodup_labels) hperm.symm.subset]

theorem ofGraph_eq_error {fault : Fault} (hsort : Label.sort g.labels = .error fault) :
    ofGraph g b = .error fault := by
  rw [ofGraph, hsort]
  rfl

/-- Only what is left in the end counts. -/
theorem ofGraph_congr (hagree : g.Agree h) : ofGraph h b = ofGraph g b := by
  have hlabels : h.labels.Perm g.labels := (List.perm_ext_iff_of_nodup h.nodup_labels
    g.nodup_labels).mpr fun l => (hagree.labels l).symm
  have hsame := Label.sort_congr hlabels
  cases hsort : Label.sort g.labels with
  | error fault => rw [ofGraph_eq_error hsort, ofGraph_eq_error (hsame.trans hsort)]
  | ok order =>
    obtain ⟨hperm, -⟩ := Label.sorted_of_sort hsort
    have hnodup : order.Nodup := hperm.nodup_iff.mpr g.nodup_labels
    have hrows : h.rows order = g.rows order := by
      simp only [Graph.rows, hagree.weights]
    have hvalues : h.values order 1 = g.values order 1 := by
      rw [Graph.values_eq h hnodup, Graph.values_eq g hnodup]
      exact List.map_congr_left fun l hl => (hagree.values l (hperm.mem_iff.mp hl)).symm
    rw [ofGraph_eq hsort, ofGraph_eq (hsame.trans hsort), hrows, hvalues]

/-- A graph whose labels are all numbers or all texts has its nodes in one order.  In this order it
forms a network exactly if it has a node and is complete, and is refused otherwise.  The network
describes what the insertions leave behind, with the budget, and graphs that agree in this form the
same network. -/
theorem ofGraphValues_outcome (g : Graph Float) {budget : Value} {b : Float}
    (hlabels : Label.Comparable g.labels) (hbudget : Double.ofValue budget = .ok b) (hb : 0 ≤ b) :
    ∃ order, Label.sort g.labels = .ok order ∧ order.Nodup ∧
      (order.Pairwise fun u v => Label.before u v = true) ∧
      (∀ l, l ∈ order ↔ l ∈ g.history.flatMap Graph.mentions) ∧
      ((∃ N, ofGraphValues (g.map .real) none budget = .ok N) ↔ order ≠ [] ∧ g.Complete) ∧
      (∀ fault, ofGraphValues (g.map .real) none budget = .error fault →
        ∃ reason, fault = .refused reason) ∧
      (∀ (n : ℕ) (N : Network Float n), ofGraphValues (g.map .real) none budget = .ok ⟨n, N⟩ →
        N.Describes g order ∧ N.budget = b) ∧
      ∀ h : Graph Float, g.Agree h →
        ofGraphValues (h.map .real) none budget = ofGraphValues (g.map .real) none budget := by
  have hsort := Label.sort_eq hlabels
  obtain ⟨hperm, hsorted⟩ := Label.sorted_of_sort hsort
  have hnodup := hperm.nodup_iff.mpr g.nodup_labels
  rw [ofGraphValues_map g hbudget]
  refine ⟨_, hsort, hnodup, hsorted, fun l => hperm.mem_iff.trans Graph.mem_labels, ?_, ?_, ?_, ?_⟩
  · rw [ofGraph_eq hsort, exists_ofGrids?_iff, conditions_iff hperm hb]
  · intro fault hfault
    rw [ofGraph_eq hsort, ofGrids?_eq_error_iff] at hfault
    obtain ⟨reason, heq, -⟩ := hfault
    exact ⟨reason, heq⟩
  · intro n N hN
    rw [ofGraph_eq hsort] at hN
    have hholds := holds_of_ofGrids? hN
    exact ⟨describes_of_holds hnodup hholds, hholds.2.2⟩
  · intro h hagree
    rw [ofGraphValues_map h hbudget]
    exact ofGraph_congr hagree

/-- Three nodes joined two by two, one edge again from its other end. -/
def patched : Graph Float where
  directed := false
  history := [.edge (.number 10) (.number 2) (some 9), .node (.number 7) (some 5),
    .edge (.number 2) (.number 7) none, .edge (.number 2) (.number 10) (some 3),
    .edge (.number 7) (.number 7) (some 0), .edge (.number 7) (.number 10) (some 4)]

theorem ofGraphValues_outcome_patched : ∃ N : Network Float 3,
    ofGraphValues (patched.map .real) none (.real 6) = .ok ⟨3, N⟩ ∧ N.weight 0 1 = 1 ∧
      N.weight 2 0 = 3 ∧ N.weight 1 2 = 4 ∧ N.value 0 = 1 ∧ N.value 1 = 5 ∧ N.budget = 6 := by
  have hlabels : patched.labels = [.number 10, .number 2, .number 7] := by decide +kernel
  have hcomparable : Label.Comparable patched.labels := by
    rw [hlabels]
    exact .inr (by decide)
  have hcomplete : patched.Complete := by
    refine ⟨fun u hu v hv hne => (Graph.getD_nonzero_iff _).mp ?_,
      fun u hu => (Graph.getD_beq_zero_iff _).mp ?_⟩
    · rw [hlabels] at hu hv
      revert u v
      decide +kernel
    · rw [hlabels] at hu
      revert u
      decide +kernel
  have hbudget : Double.ofValue (.real 6) = .ok 6 := rfl
  obtain ⟨order, hsort, -, -, -, hok, -, hnumbers, -⟩ :=
    ofGraphValues_outcome patched hcomparable hbudget (by decide +kernel)
  have horder : Label.sort patched.labels = .ok [.number 2, .number 7, .number 10] := by
    have hperm : patched.labels.Perm [.number 2, .number 7, .number 10] := by
      rw [hlabels]
      decide
    rw [Label.sort_congr hperm]
    exact Label.sort_of_pairwise (.inr (by decide)) (by decide)
  obtain rfl : [.number 2, .number 7, .number 10] = order :=
    Except.ok.inj (horder.symm.trans hsort)
  obtain ⟨⟨n, N⟩, hN⟩ := hok.mpr ⟨List.cons_ne_nil _ _, hcomplete⟩
  obtain ⟨hdescribes, hsix⟩ := hnumbers n N hN
  obtain rfl : n = 3 := hdescribes.size
  refine ⟨N, hN, ?_, ?_, ?_, ?_, ?_, hsix⟩
  · exact (hdescribes.weight 0 1 _ _ rfl rfl).trans (by decide +kernel)
  · exact (hdescribes.weight 2 0 _ _ rfl rfl).trans (by decide +kernel)
  · exact (hdescribes.weight 1 2 _ _ rfl rfl).trans (by decide +kernel)
  · exact (hdescribes.value 0 _ rfl).trans (by decide +kernel)
  · exact (hdescribes.value 1 _ rfl).trans (by decide +kernel)

end Network

end CityTour
