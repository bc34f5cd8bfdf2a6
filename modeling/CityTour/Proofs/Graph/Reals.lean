import Mathlib
import CityTour.Graph.Basic
import CityTour.Proofs.Graph.Label
import CityTour.Proofs.Graph.Weight

/-! Graphs of doubles as documents hold them.  Their weights are converted once for each edge, and
the graph of these edges has the same nodes and the same weights in the end (`lastWeight_settled`);
so the network of such a graph is that of the graph of doubles (`ofGraphValues_map`). -/

namespace CityTour

open Document

/-- The insertion with something else in place of what is attached. -/
def Insertion.map {β γ : Type} (f : β → γ) : Insertion β → Insertion γ
  | .node l value => .node l (value.map f)
  | .edge u v weight => .edge u v (weight.map f)

namespace Graph

variable {β γ : Type}

/-- The graph with something else in place of what is attached to nodes and edges. -/
def map (f : β → γ) (g : Graph β) : Graph γ := ⟨g.directed, g.history.map (Insertion.map f)⟩

theorem labels_map (f : β → γ) (g : Graph β) : (g.map f).labels = g.labels := by
  have hmentions : ∀ step : Insertion β, mentions (step.map f) = mentions step := by
    intro step
    cases step <;> rfl
  rw [labels, labels, map, List.flatMap_map]
  simp only [hmentions]

theorem writings_map (f : β → γ) (g : Graph β) (u v : Label) :
    (g.map f).writings u v = (g.writings u v).map (Option.map f) := by
  rw [writings, writings, map, List.filterMap_map, List.map_filterMap]
  refine List.filterMap_congr fun step _ => ?_
  cases step with
  | node l value => rfl
  | edge t h weight =>
    simp only [Function.comp_apply, Insertion.map, written]
    split_ifs <;> rfl

theorem writings_map_eq_nil_iff (f : β → γ) (g : Graph β) (u v : Label) :
    (g.map f).writings u v = [] ↔ g.writings u v = [] := by
  rw [writings_map, List.map_eq_nil_iff]

theorem lookup_neighbours_map (f : β → γ) (g : Graph β) (u v : Label) :
    ((g.map f).neighbours u).lookup v = ((g.neighbours u).lookup v).map (Option.map f) := by
  have hgiven : ((g.writings u v).map (Option.map f)).filterMap id =
      ((g.writings u v).filterMap id).map f := by
    rw [List.filterMap_map, List.map_filterMap]
    rfl
  rw [lookup_neighbours, lookup_neighbours]
  by_cases h : g.writings u v = []
  · rw [if_pos h, if_pos ((writings_map_eq_nil_iff f g u v).mpr h)]
    rfl
  · rw [if_neg h, if_neg (mt (writings_map_eq_nil_iff f g u v).mp h), writings_map, hgiven,
      List.getLast?_map]
    rfl

theorem lastValue_map (f : β → γ) (g : Graph β) (l : Label) :
    (g.map f).lastValue l = (g.lastValue l).map f := by
  have hgiven : ∀ step : Insertion β, givenValue l (step.map f) = (givenValue l step).map f := by
    intro step
    cases step with
    | node k value =>
      simp only [Insertion.map, givenValue]
      split_ifs <;> rfl
    | edge t h weight => rfl
  rw [lastValue, lastValue, map, List.filterMap_map, ← List.getLast?_map, List.map_filterMap]
  simp only [Function.comp_def, hgiven]

end Graph

/-! ### Entries -/

/-- A number of an array as a document has it, one where none is given. -/
def Document.entry (x : Option Float) : Value := (x.map .real).getD plainWeight

namespace Grid

variable {α β γ : Type}

theorem exists_ofList_map (xs : List α) : ∃ entries : Vector α (cells [xs.length]),
    ∀ {δ : Type} (f : α → δ), ofList (xs.map f) = ⟨[xs.length], entries.map f⟩ := by
  refine ⟨⟨xs.toArray, cells_row xs.length⟩, fun f => ?_⟩
  refine ext_toList (congrArg (fun k => [k]) (List.length_map f)) ?_
  rw [Vector.toList_map]
  rfl

/-- Entries that can all be converted are converted one by one. -/
theorem mapM_ofList {item : α → β} {f : β → Except Fault γ} {result : α → γ}
    (h : ∀ x, f (item x) = .ok (result x)) (xs : List α) :
    (ofList (xs.map item)).mapM f = .ok (ofList (xs.map result)) := by
  obtain ⟨entries, hentries⟩ := exists_ofList_map xs
  have hconverted : (entries.map item).mapM f = .ok (entries.map result) := by
    have hcomp : f ∘ item = fun x => pure (result x) := funext h
    rw [Vector.mapM_map, hcomp]
    exact Vector.mapM_pure result
  rw [hentries, hentries, mapM, hconverted]
  rfl

theorem ofEntry_entry (x : Option Float) : Double.ofEntry (entry x) = .ok (x.getD 1) := by
  cases x with
  | none =>
    have hone : Double.ofInt 1 = 1 := by decide +kernel
    have hreading : Double.reading 1 = .finite false (Nat.pow 2 52) (-52) := by decide +kernel
    show Double.bounded (Double.ofInt 1) = .ok 1
    rw [hone, Double.bounded, hreading]
  | some x => rfl

/-- Numbers are read as they are, and as one where none is given. -/
theorem ofValue_entries (xs : List (Option Float)) :
    ofValue (.list (xs.map entry)) = .ok (ofList (xs.map fun x => x.getD 1)) := by
  have hentry : ∀ x, ofNested? (entry x) = some (single (entry x)) := by
    rintro (- | x) <;> rfl
  have hrank : ¬ rankLimit < (ofList (xs.map entry)).shape.length := by
    show ¬ 64 < 1
    decide
  rw [ofValue, ofNested?_list hentry]
  dsimp only
  rw [if_neg hrank, mapM_ofList ofEntry_entry]

end Grid

/-! ### Networks -/

namespace Graph

variable {g : Graph Float} {u v : Label} {weight : Option Value}

/-- The graph with its nodes first and every edge put in once. -/
def settled (g : Graph Float) : Graph Float where
  directed := g.directed
  history := g.labels.map (fun l => .node l none) ++
    (g.map Value.real).edges.map fun e => .edge e.1 e.2.1 (g.lastWeight 1 e.1 e.2.1)

theorem lookup_of_mem_edges_map (h : (u, v, weight) ∈ (g.map Value.real).edges) :
    ∃ given, (g.neighbours u).lookup v = some given ∧ weight = given.map .real := by
  obtain ⟨-, -, -, -, -, hlookup⟩ := mem_edges.mp h
  rw [lookup_neighbours_map, Option.map_eq_some_iff] at hlookup
  obtain ⟨given, hgiven, rfl⟩ := hlookup
  exact ⟨given, hgiven, rfl⟩

theorem toReal_map (g : Graph Float) : (g.map Value.real).toReal = .ok g.settled := by
  have hdocument : (g.map Value.real).edges.map (fun e => e.2.2.getD plainWeight) =
      ((g.map Value.real).edges.map fun e => ((g.neighbours e.1).lookup e.2.1).join).map entry := by
    rw [List.map_map]
    refine List.map_congr_left fun e he => ?_
    obtain ⟨given, hgiven, hweight⟩ := lookup_of_mem_edges_map he
    rw [Function.comp_apply, hgiven, hweight]
    rfl
  have hedges : List.zipWith (fun e w => Insertion.edge e.1 e.2.1 (some w))
      (g.map Value.real).edges (((g.map Value.real).edges.map fun e =>
        ((g.neighbours e.1).lookup e.2.1).join).map fun x => x.getD 1) =
      (g.map Value.real).edges.map fun e =>
        .edge e.1 e.2.1 (g.lastWeight 1 e.1 e.2.1) := by
    rw [List.map_map, List.zipWith_map_right, List.zipWith_self]
    refine List.map_congr_left fun e he => ?_
    obtain ⟨given, hgiven, -⟩ := lookup_of_mem_edges_map he
    rw [Function.comp_apply, lastWeight_eq, hgiven]
    rfl
  rw [toReal, hdocument, Grid.ofValue_entries, ok_bind, if_pos (.inl (by simp [Grid.ofList]))]
  show Except.ok (Graph.mk _ _) = _
  rw [settled, labels_map, ← hedges]
  rfl

theorem mem_writings_settled {given : Option Float} (h : given ∈ g.settled.writings u v) :
    g.writings u v ≠ [] ∧ given = g.lastWeight 1 u v := by
  have hnodes : (g.labels.map fun l => Insertion.node l (none : Option Float)).filterMap
      (written g.directed u v) = [] := by
    rw [List.filterMap_map, List.filterMap_eq_nil_iff]
    exact fun _ _ => rfl
  rw [writings, settled, List.filterMap_append, hnodes, List.nil_append, List.filterMap_map] at h
  obtain ⟨⟨t, s, weight⟩, hedge, hwritten⟩ := List.mem_filterMap.mp h
  have hput : g.writings t s ≠ [] :=
    mt (writings_map_eq_nil_iff _ g t s).mpr (writings_ne_nil_of_mem_edges hedge)
  rw [Function.comp_apply, written, Option.ite_none_right_eq_some] at hwritten
  obtain ⟨hends, hgiven⟩ := hwritten
  rw [← Option.some.inj hgiven]
  -- Without a direction the edge may be listed from its other end.
  rcases hends with ⟨rfl, rfl⟩ | ⟨hdirected, rfl, rfl⟩
  · exact ⟨hput, rfl⟩
  · have hundirected : g.directed = false := hdirected
    refine ⟨?_, lastWeight_comm hundirected 1 t s⟩
    rw [writings_comm hundirected]
    exact hput

theorem writings_settled_ne_nil (h : g.writings u v ≠ []) : g.settled.writings u v ≠ [] := by
  have hmapped : (g.map Value.real).writings u v ≠ [] :=
    mt (writings_map_eq_nil_iff _ g u v).mp h
  have hmem : ∀ {t s : Label} {weight : Option Value}, (t, s, weight) ∈ (g.map Value.real).edges →
      Insertion.edge t s (g.lastWeight 1 t s) ∈ g.settled.history := fun hedge =>
    List.mem_append_right _ (List.mem_map.mpr ⟨_, hedge, rfl⟩)
  obtain ⟨weight, hedge | ⟨hundirected, hedge⟩⟩ := exists_mem_edges hmapped
  · exact List.ne_nil_of_mem (List.mem_filterMap.mpr ⟨_, hmem hedge, if_pos (.inl ⟨rfl, rfl⟩)⟩)
  · exact List.ne_nil_of_mem (List.mem_filterMap.mpr
      ⟨_, hmem hedge, if_pos (.inr ⟨hundirected, rfl, rfl⟩)⟩)

theorem lastWeight_settled (g : Graph Float) (u v : Label) :
    g.settled.lastWeight 1 u v = g.lastWeight 1 u v := by
  by_cases h : g.writings u v = []
  · have hnil : g.settled.writings u v = [] := by
      by_contra hne
      obtain ⟨given, hgiven⟩ := List.exists_mem_of_ne_nil _ hne
      exact (mem_writings_settled hgiven).1 h
    rw [lastWeight, lastWeight, if_pos h, if_pos hnil]
  · obtain ⟨weight, hweight⟩ : ∃ weight, g.lastWeight 1 u v = some weight := ⟨_, if_neg h⟩
    rw [hweight]
    exact lastWeight_of_forall (writings_settled_ne_nil h) fun given hgiven =>
      (mem_writings_settled hgiven).2.trans hweight

theorem labels_settled (g : Graph Float) : g.settled.labels ⊆ g.labels := by
  intro l hl
  obtain ⟨step, hstep, hmention⟩ := List.mem_flatMap.mp (mem_labels.mp hl)
  rcases List.mem_append.mp hstep with hnode | hedge
  · obtain ⟨k, hk, rfl⟩ := List.mem_map.mp hnode
    rwa [List.mem_singleton.mp hmention]
  · obtain ⟨⟨t, s, weight⟩, hlisted, rfl⟩ := List.mem_map.mp hedge
    obtain ⟨ht, hs⟩ := mem_labels_of_writings_ne_nil (writings_ne_nil_of_mem_edges hlisted)
    rw [labels_map] at ht hs
    rcases List.mem_pair.mp hmention with rfl | rfl
    · exact ht
    · exact hs

/-- Conversion changes no weight. -/
theorem weights_settled {order : List Label} (hnodup : order.Nodup) (hmem : g.labels ⊆ order) :
    g.settled.weights order 0 1 = g.weights order 0 1 := by
  refine Grid.ext_toList rfl ?_
  rw [toList_weights _ hnodup (List.Subset.trans g.labels_settled hmem),
    toList_weights _ hnodup hmem]
  simp only [weightBetween_eq, lastWeight_settled]

end Graph

/-- A graph of doubles is read from a document as it is. -/
theorem Network.ofGraphValues_map (g : Graph Float) {budget : Value} {b : Float}
    (hbudget : Double.ofValue budget = .ok b) :
    ofGraphValues (g.map .real) none budget = ofGraph g b := by
  rw [ofGraphValues, ofGraph, Graph.labels_map]
  cases hsort : Label.sort g.labels with
  | error fault => rfl
  | ok order =>
    obtain ⟨hperm, -⟩ := Label.sorted_of_sort hsort
    have hnodup : order.Nodup := hperm.nodup_iff.mpr g.nodup_labels
    have hweights := Graph.weights_settled hnodup hperm.symm.subset
    have hvalues : Grid.ofValue (.list ((g.map .real).values order (.int 1))) =
        .ok (.ofList (g.values order 1)) := by
      have hgiven := Grid.ofValue_entries (order.map g.lastValue)
      rw [List.map_map, List.map_map] at hgiven
      rw [Graph.values_eq _ hnodup, Graph.values_eq _ hnodup]
      simp only [Graph.lastValue_map]
      exact hgiven
    simp only [ok_bind, Graph.toReal_map, hweights, Option.getD_none, hvalues, hbudget, ofGrids?]

end CityTour
