import Mathlib
import CityTour.Graph.Basic
import CityTour.Proofs.Arc.Index
import CityTour.Proofs.Graph.Label
import CityTour.Proofs.Graph.Neighbours
import CityTour.Proofs.Number.Place
import CityTour.Proofs.Validation

/-! Networks made into graphs and back.  No weight between two cities is zero and every weight on
the diagonal is, so the graph of a network has exactly one edge for each arc.  Read back, its nodes
are in order and its missing edges are the diagonal; what comes back differs from the network at
most in the signs of the zeros there (`graph_round_trip`). -/

namespace CityTour

open Scalar

/-- Of all entries of a list only one is looked for. -/
theorem flatMap_ite_eq {β γ : Type} [DecidableEq β] {l : List β} (hnodup : l.Nodup) {b : β}
    (hb : b ∈ l) (f : β → List γ) : (l.flatMap fun a => if a = b then f a else []) = f b := by
  induction l with
  | nil => exact absurd hb List.not_mem_nil
  | cons a l ih =>
    rw [List.nodup_cons] at hnodup
    rw [List.flatMap_cons]
    rcases List.mem_cons.mp hb with rfl | hmem
    · have hrest : (l.flatMap fun a => if a = b then f a else []) = [] :=
        List.flatMap_eq_nil_iff.mpr fun a ha => if_neg (ne_of_mem_of_not_mem ha hnodup.1)
      rw [if_pos rfl, hrest, List.append_nil]
    · rw [if_neg (ne_of_mem_of_not_mem hmem hnodup.1).symm, List.nil_append, ih hnodup.2 hmem]

namespace Weights

variable {n : ℕ} (w : Weights Float n)

/-- The weights with a positive zero all along the diagonal. -/
def clearedRows : Vector (Vector Float n) n :=
  Vector.ofFn fun i => Vector.ofFn fun j => if i = j then 0 else w.between i j

theorem get_clearedRows (i j : Fin n) :
    (w.clearedRows.get i).get j = if i = j then 0 else w.between i j := by
  simp [clearedRows, Vector.get_eq_getElem]

/-- Weights stay weights with a positive zero all along the diagonal. -/
def cleared : Weights Float n where
  rows := w.clearedRows
  size_pos := w.size_pos
  diagonal i := by
    rw [get_clearedRows, if_pos rfl]
    decide +kernel
  defined i j h := by
    rw [get_clearedRows, if_neg h]
    exact w.defined i j h
  nonzero i j h := by
    rw [get_clearedRows, if_neg h]
    exact w.nonzero i j h

theorem cleared_rows_beq : (w.cleared.rows == w.rows) = true := by
  have hentry : ∀ i j : Fin n, ((w.clearedRows.get i).get j == (w.rows.get i).get j) = true := by
    intro i j
    rw [get_clearedRows]
    by_cases h : i = j
    · subst h
      rw [if_pos rfl]
      exact Double.beq_symm (w.diagonal i)
    · rw [if_neg h]
      exact Double.isUndefined_eq_false.mp (w.defined i j h)
  exact (vector_beq_iff _ _).mpr fun i => (vector_beq_iff _ _).mpr (hentry i)

end Weights

namespace Network

variable {n : ℕ} (N : Network Float n)

theorem labelOf_injective : Function.Injective (labelOf (n := n)) := by
  intro i j h
  simpa [labelOf, Fin.val_inj] using h

/-- The graph of a network has exactly one edge for each arc. -/
theorem edges_eq_arcs : N.edges = (Arc.arcs n).map fun a => (a.1, a.2, N.weight a.1 a.2) := by
  have hrow : ∀ i : Fin n, ((List.finRange n).filterMap fun j =>
      if N.weight i j == 0 then none else some (i, j, N.weight i j)) =
        ((List.finRange n).filter (i ≠ ·)).map fun j => (i, j, N.weight i j) := by
    intro i
    rw [← List.filterMap_eq_map, List.filterMap_filter]
    refine List.filterMap_congr fun j _ => ?_
    by_cases h : i = j
    · subst h
      have hzero : (N.weight i i == 0) = true := N.weights.diagonal i
      simp [hzero]
    · have hnonzero : (N.weight i j == 0) = false := N.weights.nonzero i j h
      simp [hnonzero, h]
  rw [edges, Arc.arcs, List.map_flatMap]
  simp only [hrow, List.map_map]
  rfl

theorem directed_toGraph : N.toGraph.directed = true := rfl

theorem history_toGraph : N.toGraph.history =
    ((List.finRange n).map fun i => .node (labelOf i) (some (N.value i))) ++
      (Arc.arcs n).map fun a => .edge (labelOf a.1) (labelOf a.2) (some (N.weight a.1 a.2)) := by
  rw [toGraph, edges_eq_arcs, List.map_map]
  rfl

theorem labels_toGraph : N.toGraph.labels = (List.finRange n).map labelOf := by
  have hnodup : ([] ++ (List.finRange n).map (labelOf (n := n))).Nodup :=
    (List.nodup_finRange n).map labelOf_injective
  have hnodes : ((List.finRange n).flatMap fun i =>
      Graph.mentions (.node (labelOf i) (some (N.value i)))) = (List.finRange n).map labelOf :=
    List.map_eq_flatMap.symm
  have harcs : ((Arc.arcs n).flatMap fun a =>
      Graph.mentions (.edge (labelOf a.1) (labelOf a.2) (some (N.weight a.1 a.2)))) ⊆
        (List.finRange n).map labelOf := by
    intro l hl
    obtain ⟨a, -, hl⟩ := List.mem_flatMap.mp hl
    rcases List.mem_pair.mp hl with rfl | rfl
    · exact List.mem_map_of_mem (List.mem_finRange a.1)
    · exact List.mem_map_of_mem (List.mem_finRange a.2)
  rw [Graph.labels, history_toGraph, List.flatMap_append, List.flatMap_map, List.flatMap_map,
    hnodes, List.foldl_append, Graph.foldl_see_of_nodup hnodup, List.nil_append,
    Graph.foldl_see_of_subset harcs]

theorem neighbours_toGraph (i : Fin n) : N.toGraph.neighbours (labelOf i) =
    ((List.finRange n).filter (i ≠ ·)).map fun j => (labelOf j, some (N.weight i j)) := by
  have hnodes : ((List.finRange n).flatMap fun k =>
      Graph.arcsFrom true (labelOf i) (.node (labelOf k) (some (N.value k)))) = [] := by
    simp [Graph.arcsFrom]
  have harcs : ((Arc.arcs n).flatMap fun a => Graph.arcsFrom true (labelOf i)
      (.edge (labelOf a.1) (labelOf a.2) (some (N.weight a.1 a.2)))) =
        ((List.finRange n).filter (i ≠ ·)).map fun j => (labelOf j, some (N.weight i j)) := by
    -- Of the rows of arcs only that of `i` is left.
    rw [Arc.arcs, List.flatMap_assoc]
    refine (List.flatMap_congr fun k _ => ?_).trans
      (flatMap_ite_eq (List.nodup_finRange n) (List.mem_finRange i) fun k =>
        ((List.finRange n).filter (k ≠ ·)).map fun j => (labelOf j, some (N.weight k j)))
    rw [List.flatMap_map, List.map_eq_flatMap]
    by_cases h : k = i
    · simp [Graph.arcsFrom, h]
    · simp [Graph.arcsFrom, labelOf_injective.eq_iff, h]
  have hnodup : (([] ++ ((List.finRange n).filter (i ≠ ·)).map fun j =>
      (labelOf j, some (N.weight i j))).map Prod.fst).Nodup := by
    rw [List.nil_append, List.map_map]
    exact ((List.nodup_finRange n).filter _).map labelOf_injective
  rw [Graph.neighbours, directed_toGraph, history_toGraph, List.flatMap_append, List.flatMap_map,
    List.flatMap_map, hnodes, harcs]
  exact Graph.foldl_join_of_nodup hnodup

theorem lastValue_toGraph (i : Fin n) : N.toGraph.lastValue (labelOf i) = some (N.value i) := by
  have hnodes : ((List.finRange n).map fun k =>
      Insertion.node (labelOf k) (some (N.value k))).filterMap (Graph.givenValue (labelOf i)) =
        [N.value i] := by
    rw [List.filterMap_map, List.filterMap_eq_flatMap_toList]
    refine (List.flatMap_congr fun k _ => ?_).trans
      (flatMap_ite_eq (List.nodup_finRange n) (List.mem_finRange i) fun k => [N.value k])
    by_cases h : k = i <;> simp [Graph.givenValue, labelOf_injective.eq_iff, h]
  have harcs : ((Arc.arcs n).map fun a =>
      Insertion.edge (labelOf a.1) (labelOf a.2) (some (N.weight a.1 a.2))).filterMap
        (Graph.givenValue (labelOf i)) = [] := by
    simp [List.filterMap_map, Graph.givenValue]
  rw [Graph.lastValue, history_toGraph, List.filterMap_append, hnodes, harcs]
  rfl

theorem weightBetween_toGraph (missing unweighted : Float) (i j : Fin n) :
    N.toGraph.weightBetween missing unweighted (labelOf i) (labelOf j) =
      if i = j then missing else N.weight i j := by
  have hrow : (((List.finRange n).filter (i ≠ ·)).map fun k =>
      (labelOf k, some (N.weight i k))) = (((List.finRange n).filter (i ≠ ·)).map fun k =>
        (k, some (N.weight i k))).map (Prod.map labelOf id) := by
    rw [List.map_map]
    rfl
  rw [Graph.weightBetween, neighbours_toGraph, hrow, Entries.lookup_map labelOf_injective]
  by_cases h : i = j
  · have hnone : (((List.finRange n).filter (i ≠ ·)).map fun k =>
        (k, some (N.weight i k))).lookup j = none := by
      simp [h]
    rw [hnone, if_pos h]
  · have hj : j ∈ (List.finRange n).filter (i ≠ ·) := by simpa using h
    rw [List.lookup_graph (fun k => some (N.weight i k)) hj, if_neg h]

theorem sort_labels_toGraph : Label.sort N.toGraph.labels = .ok N.toGraph.labels := by
  have hnumbers : Label.Comparable ((List.finRange n).map labelOf) :=
    .inr (by simp [labelOf, Label.isText])
  have hsorted : ((List.finRange n).map labelOf).Pairwise fun a b => Label.before a b = true := by
    refine List.pairwise_map.mpr ((List.pairwise_lt_finRange n).imp fun {i j} hlt => ?_)
    simpa [labelOf, Label.before] using hlt.le
  rw [labels_toGraph, Label.sort_of_pairwise hnumbers hsorted]

theorem edges_toGraph : N.toGraph.edges =
    (Arc.arcs n).map fun a => (labelOf a.1, labelOf a.2, some (N.weight a.1 a.2)) := by
  rw [Graph.edges_of_directed N.directed_toGraph, labels_toGraph, Arc.arcs, List.map_flatMap,
    List.flatMap_map]
  simp only [neighbours_toGraph, List.map_map]
  rfl

theorem values_toGraph (missing : Float) :
    N.toGraph.values N.toGraph.labels missing = N.values.toList := by
  rw [Graph.values_eq _ N.toGraph.nodup_labels, labels_toGraph, List.map_map]
  simp only [Function.comp_def, lastValue_toGraph, Option.getD_some]
  rw [← List.ofFn_eq_map, ← Vector.toList_ofFn]
  exact congrArg Vector.toList Vector.ofFn_getElem

/-- A network with a positive zero all along the diagonal. -/
def cleared : Network Float n where
  weights := N.weights.cleared
  values := N.values
  budget := N.budget
  budget_defined := N.budget_defined
  budget_nonneg := N.budget_nonneg

theorem ofGraph_toGraph : ofGraph N.toGraph N.budget = .ok ⟨n, N.cleared⟩ := by
  have hweights : N.toGraph.weights N.toGraph.labels 0 1 = .ofRows N.weights.clearedRows := by
    refine Grid.ext_toList (by simp [Graph.weights, Grid.ofRows, labels_toGraph]) ?_
    rw [Graph.toList_weights _ N.toGraph.nodup_labels (List.Subset.refl _), labels_toGraph,
      Grid.ofRows, Vector.toList_cast, Grid.toList_flatten, Weights.clearedRows,
      Vector.toList_ofFn, List.ofFn_eq_map, List.flatMap_map, List.flatMap_map]
    refine List.flatMap_congr fun i _ => ?_
    rw [Vector.toList_ofFn, List.ofFn_eq_map, List.map_map]
    exact List.map_congr_left fun j _ => N.weightBetween_toGraph 0 1 i j
  rw [ofGraph, sort_labels_toGraph, ok_bind, hweights, values_toGraph]
  exact N.cleared.ofGrids?_parts

theorem cleared_same_iff : N.cleared.same N = true ↔ ∀ i, isUndefined (N.value i) = false := by
  have hbudget := Double.isUndefined_eq_false.mp N.budget_defined
  have hrows : (N.cleared.weights.rows == N.weights.rows) = true := N.weights.cleared_rows_beq
  have hvalues : (N.cleared.values == N.values) = true ↔
      ∀ i, isUndefined (N.value i) = false :=
    (vector_beq_iff _ _).trans (forall_congr' fun i => Double.isUndefined_eq_false.symm)
  rw [same, dif_pos rfl, Bool.and_eq_true, Bool.and_eq_true]
  exact ⟨fun h => hvalues.mp h.2.2, fun h => ⟨hbudget, hrows, hvalues.mpr h⟩⟩

/-- The graph of a network is directed, its nodes are the numbers of the cities in order, with the
values of the cities, and its edges are the arcs, each once, with their weights.  Read back with the
same budget it gives a network with the same values and the same weights between two cities, and
with positive zeros on the diagonal.  That network equals the first unless the value of a city is no
number. -/
theorem graph_round_trip :
    N.toGraph.directed = true ∧ N.toGraph.labels = (List.finRange n).map labelOf ∧
      (∀ missing, N.toGraph.values N.toGraph.labels missing = N.values.toList) ∧
      N.toGraph.edges =
        (Arc.arcs n).map (fun a => (labelOf a.1, labelOf a.2, some (N.weight a.1 a.2))) ∧
      ∃ M : Network Float n, ofGraph N.toGraph N.budget = .ok ⟨n, M⟩ ∧
        (M.same N = true ↔ ∀ i, isUndefined (N.value i) = false) ∧
        (∀ i j, M.weight i j = if i = j then 0 else N.weight i j) ∧ M.values = N.values ∧
        M.budget = N.budget :=
  ⟨N.directed_toGraph, N.labels_toGraph, N.values_toGraph, N.edges_toGraph, N.cleared,
    N.ofGraph_toGraph, N.cleared_same_iff, N.weights.get_clearedRows, rfl, rfl⟩

end Network

end CityTour
