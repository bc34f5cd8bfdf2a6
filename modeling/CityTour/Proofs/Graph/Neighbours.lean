import Mathlib
import CityTour.Graph.Basic
import CityTour.Proofs.Entries
import CityTour.Proofs.State

/-! Graphs by the labels of their nodes.  The places at which the nodes are numbered drop out of
what a graph holds in the end: the row of a place lists the neighbours of its label
(`labelled_adjacency`), and so edges, weights and values are read off the insertions, whatever order
the nodes are given in. -/

namespace CityTour

namespace Graph

variable {β : Type}

/-! ### Labels -/

theorem foldl_see_of_nodup {seen ls : List Label} (h : (seen ++ ls).Nodup) :
    ls.foldl see seen = seen ++ ls := by
  induction ls generalizing seen with
  | nil => simp
  | cons l ls ih =>
    have hnew : l ∉ seen := fun hl => List.disjoint_of_nodup_append h hl List.mem_cons_self
    rw [List.append_cons] at h ⊢
    rw [List.foldl_cons, see, if_neg hnew, ih h]

theorem foldl_see_of_subset {seen ls : List Label} (h : ls ⊆ seen) : ls.foldl see seen = seen := by
  induction ls with
  | nil => rfl
  | cons l ls ih =>
    rw [List.cons_subset] at h
    rw [List.foldl_cons, see, if_pos h.1, ih h.2]

theorem foldl_see (ls : List Label) {seen : List Label} (h : seen.Nodup) :
    (ls.foldl see seen).Nodup ∧ ∀ l, l ∈ ls.foldl see seen ↔ l ∈ seen ∨ l ∈ ls := by
  induction ls generalizing seen with
  | nil => simp [h]
  | cons k ls ih =>
    rw [List.foldl_cons, see]
    by_cases hk : k ∈ seen
    · rw [if_pos hk]
      refine ⟨(ih h).1, fun l => ?_⟩
      rw [(ih h).2, List.mem_cons]
      grind
    · have hnodup : (seen ++ [k]).Nodup := by
        simpa [List.nodup_append] using ⟨h, fun l hl => ne_of_mem_of_not_mem hl hk⟩
      rw [if_neg hk]
      refine ⟨(ih hnodup).1, fun l => ?_⟩
      rw [(ih hnodup).2, List.mem_append, List.mem_singleton, List.mem_cons, or_assoc]

theorem nodup_labels (g : Graph β) : g.labels.Nodup := (foldl_see _ List.nodup_nil).1

theorem mem_labels {g : Graph β} {l : Label} : l ∈ g.labels ↔ l ∈ g.history.flatMap mentions := by
  have hmem := (foldl_see (g.history.flatMap mentions) List.nodup_nil).2 l
  rwa [or_iff_right List.not_mem_nil] at hmem

/-! ### Neighbours -/

/-- What an insertion joins a node to, with the weight. -/
def arcsFrom (directed : Bool) (u : Label) : Insertion β → List (Label × Option β)
  | .node _ _ => []
  | .edge t h weight =>
    (if t = u then [(h, weight)] else []) ++ if directed = false ∧ h = u then [(t, weight)] else []

/-- The neighbours of a node with one more arc. -/
def join {κ : Type} [DecidableEq κ] (row : List (κ × Option β)) (arc : κ × Option β) :
    List (κ × Option β) :=
  Entries.alter (fun older => arc.2.or older.join) arc.1 row

/-- Arcs to different nodes are kept as they come. -/
theorem foldl_join_of_nodup {κ : Type} [DecidableEq κ] {row arcs : List (κ × Option β)}
    (h : ((row ++ arcs).map Prod.fst).Nodup) : arcs.foldl join row = row ++ arcs :=
  Entries.foldl_alter_of_nodup (fun (weight : Option β) older => weight.or older.join)
    (fun _ => Option.or_none) h

/-- The nodes that a node is joined to, in the order in which they were first joined, with the
weight of the edge if it has one. -/
def neighbours (g : Graph β) (u : Label) : List (Label × Option β) :=
  (g.history.flatMap (arcsFrom g.directed u)).foldl join []

variable {order : List Label}

theorem get_injective (hnodup : order.Nodup) : Function.Injective order.get :=
  List.nodup_iff_injective_get.mp hnodup

theorem exists_finIdxOf {l : Label} (hl : l ∈ order) :
    ∃ i, order.finIdxOf? l = some i ∧ order.get i = l := by
  have hsome : (order.finIdxOf? l).isSome := by simpa using hl
  obtain ⟨i, hi⟩ := Option.isSome_iff_exists.mp hsome
  exact ⟨i, hi, (List.finIdxOf?_eq_some_iff.mp hi).1⟩

/-- A row of places as a row of labels. -/
abbrev labelled (row : List (Fin order.length × Option β)) : List (Label × Option β) :=
  row.map (Prod.map order.get id)

theorem labelled_putEdge (hnodup : order.Nodup) (rows : Adjacency β order.length)
    (i a b : Fin order.length) (weight : Option β) :
    labelled ((putEdge rows a b weight).get i) =
      (if order.get a = order.get i then [(order.get b, weight)] else []).foldl join
        (labelled (rows.get i)) := by
  have hinj := get_injective hnodup
  rw [putEdge, Vector.get_eq_getElem, Vector.getElem_set]
  by_cases h : a = i
  · subst h
    rw [if_pos rfl, if_pos rfl]
    exact Entries.map_alter hinj _ b _
  · rw [if_neg (Fin.val_ne_of_ne h), if_neg (hinj.ne h)]
    rfl

/-- One insertion adds its arcs to every row. -/
theorem labelled_putInsertion (hnodup : order.Nodup) (directed : Bool)
    (rows : Adjacency β order.length) (i : Fin order.length) {step : Insertion β}
    (hmem : ∀ l ∈ mentions step, l ∈ order) :
    labelled ((putInsertion directed order rows step).get i) =
      (arcsFrom directed (order.get i) step).foldl join (labelled (rows.get i)) := by
  cases step with
  | node l value => rfl
  | edge t h weight =>
    obtain ⟨a, ha, rfl⟩ := exists_finIdxOf (hmem t (by simp [mentions]))
    obtain ⟨b, hb, rfl⟩ := exists_finIdxOf (hmem h (by simp [mentions]))
    rw [putInsertion, ha, hb, arcsFrom, List.foldl_append, ← labelled_putEdge hnodup]
    -- Without a direction the edge is put in a second time, from its head.
    cases directed
    · simpa using labelled_putEdge hnodup (putEdge rows a b weight) i b a weight
    · rfl

theorem labelled_foldl_putInsertion (hnodup : order.Nodup) (directed : Bool)
    {history : List (Insertion β)} (hmem : ∀ l ∈ history.flatMap mentions, l ∈ order)
    (rows : Adjacency β order.length) (i : Fin order.length) :
    labelled ((history.foldl (putInsertion directed order) rows).get i) =
      (history.flatMap (arcsFrom directed (order.get i))).foldl join (labelled (rows.get i)) := by
  induction history generalizing rows with
  | nil => rfl
  | cons step history ih =>
    rw [List.flatMap_cons, List.forall_mem_append] at hmem
    rw [List.foldl_cons, ih hmem.2, labelled_putInsertion hnodup directed rows i hmem.1,
      List.flatMap_cons, List.foldl_append]

/-- The row of a place lists the neighbours of its label. -/
theorem labelled_adjacency (g : Graph β) (hnodup : order.Nodup) (hmem : g.labels ⊆ order)
    (i : Fin order.length) :
    labelled ((g.adjacency order).get i) = g.neighbours (order.get i) := by
  have hall : ∀ l ∈ g.history.flatMap mentions, l ∈ order := fun l hl => hmem (mem_labels.mpr hl)
  rw [adjacency, labelled_foldl_putInsertion hnodup g.directed hall, Vector.get_eq_getElem,
    Vector.getElem_replicate]
  rfl

theorem lookup_adjacency (g : Graph β) (hnodup : order.Nodup) (hmem : g.labels ⊆ order)
    (i j : Fin order.length) : ((g.adjacency order).get i).lookup j =
      (g.neighbours (order.get i)).lookup (order.get j) := by
  rw [← labelled_adjacency g hnodup hmem]
  exact (Entries.lookup_map (get_injective hnodup) j _).symm

theorem nodup_foldl_join {κ : Type} [DecidableEq κ] {row : List (κ × Option β)}
    (arcs : List (κ × Option β)) (h : (row.map Prod.fst).Nodup) :
    ((arcs.foldl join row).map Prod.fst).Nodup := by
  induction arcs generalizing row with
  | nil => exact h
  | cons arc arcs ih => exact ih (Entries.nodup_alter _ _ h)

/-- A node is joined once to each of its neighbours. -/
theorem nodup_neighbours (g : Graph β) (u : Label) : ((g.neighbours u).map Prod.fst).Nodup :=
  nodup_foldl_join _ List.nodup_nil

theorem mem_adjacency (g : Graph β) (hnodup : order.Nodup) (hmem : g.labels ⊆ order)
    {i j : Fin order.length} {weight : Option β} : (j, weight) ∈ (g.adjacency order).get i ↔
      (g.neighbours (order.get i)).lookup (order.get j) = some weight := by
  have hkeys : (((g.adjacency order).get i).map Prod.fst).Nodup := by
    have hlabels := g.nodup_neighbours (order.get i)
    rw [← labelled_adjacency g hnodup hmem, List.map_map] at hlabels
    refine List.Nodup.of_map order.get ?_
    rwa [List.map_map]
  rw [← lookup_adjacency g hnodup hmem, Entries.lookup_eq_some_iff hkeys]

/-! ### What a graph holds -/

theorem map_finRange_get {γ : Type} (f : Label → γ) :
    (List.finRange order.length).map (fun i => f (order.get i)) = order.map f := by
  rw [← Function.comp_def, ← List.map_map, List.map_get_finRange]

theorem flatMap_finRange_get {γ : Type} (f : Label → List γ) :
    (List.finRange order.length).flatMap (fun i => f (order.get i)) = order.flatMap f := by
  rw [List.flatMap_def, List.flatMap_def, map_finRange_get]

/-- A directed graph has the edges from every node to its neighbours. -/
theorem edges_of_directed {g : Graph β} (h : g.directed = true) :
    g.edges = g.labels.flatMap fun u => (g.neighbours u).map fun arc => (u, arc) := by
  have hrow : ∀ i : Fin g.labels.length,
      ((g.adjacency g.labels).get i).map (fun e => (g.labels.get i, g.labels.get e.1, e.2)) =
        (g.neighbours (g.labels.get i)).map fun arc => (g.labels.get i, arc) := by
    intro i
    rw [← labelled_adjacency g g.nodup_labels (List.Subset.refl _), List.map_map]
    rfl
  rw [← flatMap_finRange_get, edges]
  refine List.flatMap_congr fun i _ => ?_
  simp only [h, Bool.true_or, List.filter_true]
  exact hrow i

/-- The edges of a graph are its arcs, without a direction only from the end that comes first. -/
theorem mem_edges {g : Graph β} {u v : Label} {weight : Option β} :
    (u, v, weight) ∈ g.edges ↔ ∃ i j : Fin g.labels.length, (g.directed = true ∨ i ≤ j) ∧
      g.labels.get i = u ∧ g.labels.get j = v ∧ (g.neighbours u).lookup v = some weight := by
  have harc : ∀ i j : Fin g.labels.length, (j, weight) ∈ (g.adjacency g.labels).get i ↔
      (g.neighbours (g.labels.get i)).lookup (g.labels.get j) = some weight := fun i j =>
    mem_adjacency g g.nodup_labels (List.Subset.refl _)
  rw [edges]
  constructor
  · intro h
    obtain ⟨i, -, h⟩ := List.mem_flatMap.mp h
    obtain ⟨⟨j, other⟩, h, heq⟩ := List.mem_map.mp h
    obtain ⟨hmem, hfirst⟩ := List.mem_filter.mp h
    cases heq
    exact ⟨i, j, by simpa using hfirst, rfl, rfl, (harc i j).mp hmem⟩
  · rintro ⟨i, j, hfirst, rfl, rfl, hlookup⟩
    refine List.mem_flatMap.mpr ⟨i, List.mem_finRange i, List.mem_map.mpr ⟨(j, weight), ?_, rfl⟩⟩
    exact List.mem_filter.mpr ⟨(harc i j).mpr hlookup, by simpa using hfirst⟩

/-- The weight between two nodes, with what stands for a missing edge and for an edge without a
weight. -/
def weightBetween (g : Graph β) (missing unweighted : β) (u v : Label) : β :=
  match (g.neighbours u).lookup v with
  | none => missing
  | some none => unweighted
  | some (some weight) => weight

theorem toList_weights (g : Graph β) (hnodup : order.Nodup) (hmem : g.labels ⊆ order)
    (missing unweighted : β) :
    (g.weights order missing unweighted).entries.toList =
      order.flatMap fun u => order.map fun v => g.weightBetween missing unweighted u v := by
  rw [weights, Vector.toList_cast, Grid.toList_flatten, Vector.toList_ofFn, List.ofFn_eq_map,
    List.flatMap_map, ← flatMap_finRange_get]
  refine List.flatMap_congr fun i _ => ?_
  rw [Vector.toList_ofFn, List.ofFn_eq_map, ← map_finRange_get]
  refine List.map_congr_left fun j _ => ?_
  rw [weightBetween, ← lookup_adjacency g hnodup hmem, Vector.get_eq_getElem]
  rcases ((g.adjacency order)[i]).lookup j with - | - | weight <;> rfl

/-- The value that an insertion gives a node. -/
def givenValue (l : Label) : Insertion β → Option β
  | .node k value => if k = l then value else none
  | .edge _ _ _ => none

/-- The last value that a node was given. -/
def lastValue (g : Graph β) (l : Label) : Option β :=
  (g.history.filterMap (givenValue l)).getLast?

theorem get_putValue (hnodup : order.Nodup) (found : Vector (Option β) order.length)
    (step : Insertion β) (i : Fin order.length) :
    (putValue order found step).get i = (givenValue (order.get i) step).or (found.get i) := by
  rcases step with ⟨l, - | value⟩ | -
  · rw [putValue, givenValue, ite_self, Option.none_or]
  · rw [putValue, givenValue]
    by_cases hl : l ∈ order
    · obtain ⟨a, ha, rfl⟩ := exists_finIdxOf hl
      rw [ha]
      dsimp only
      rw [Vector.get_eq_getElem, Vector.getElem_set]
      by_cases h : a = i
      · rw [if_pos (congrArg Fin.val h), if_pos (congrArg order.get h), Option.some_or]
      · rw [if_neg (Fin.val_ne_of_ne h), if_neg ((get_injective hnodup).ne h), Option.none_or]
        rfl
    · have hne : l ≠ order.get i := fun h => hl (h ▸ order.get_mem i)
      rw [List.finIdxOf?_eq_none_iff.mpr hl, if_neg hne, Option.none_or]
  · rfl

theorem get_foldl_putValue (hnodup : order.Nodup) (history : List (Insertion β))
    (found : Vector (Option β) order.length) (i : Fin order.length) :
    (history.foldl (putValue order) found).get i =
      (history.filterMap (givenValue (order.get i))).getLast?.or (found.get i) := by
  induction history generalizing found with
  | nil => rfl
  | cons step history ih =>
    -- What was found before counts only if neither this step nor a later one gives a value.
    rw [List.foldl_cons, ih, get_putValue hnodup, List.filterMap_cons]
    rcases givenValue (order.get i) step with - | value
    · rfl
    · dsimp only
      rw [List.getLast?_cons, Option.some_or]
      rcases ((history.filterMap (givenValue (order.get i))).getLast?) with - | last <;> rfl

/-- A node has the last value that it was given. -/
theorem values_eq (g : Graph β) (hnodup : order.Nodup) (missing : β) :
    g.values order missing = order.map fun l => (g.lastValue l).getD missing := by
  refine List.ext_getElem (by simp [values]) fun k hk hk' => ?_
  have hlt : k < order.length := by simpa using hk'
  have hfound := get_foldl_putValue hnodup g.history (Vector.replicate _ none) ⟨k, hlt⟩
  rw [Vector.get_eq_getElem] at hfound
  simp [values, lastValue, hfound]

end Graph

end CityTour
