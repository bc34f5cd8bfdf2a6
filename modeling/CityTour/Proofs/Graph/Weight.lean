import Mathlib
import CityTour.Proofs.Graph.Neighbours

/-! The weights that a history leaves behind.  An edge is there once an insertion joins its ends,
and its weight is the last one that was written for it (`lookup_neighbours`); so the order of the
other insertions does not matter. -/

namespace CityTour.Graph

variable {β : Type} {u v : Label}

/-- What an insertion writes as the weight from one node to another, if it joins them. -/
def written (directed : Bool) (u v : Label) : Insertion β → Option (Option β)
  | .node _ _ => none
  | .edge t h weight =>
    if t = u ∧ h = v ∨ directed = false ∧ t = v ∧ h = u then some weight else none

/-- What all insertions write as the weight from one node to another, in their order. -/
def writings (g : Graph β) (u v : Label) : List (Option β) :=
  g.history.filterMap (written g.directed u v)

/-- The weight from one node to another in the end, if they are joined: the last one written, and
what stands for a missing weight if none was. -/
def lastWeight (g : Graph β) (unweighted : β) (u v : Label) : Option β :=
  if g.writings u v = [] then none
  else some (((g.writings u v).filterMap id).getLast?.getD unweighted)

/-- An edge, there or not, once a weight is written for it or left out. -/
def write (older : Option (Option β)) (weight : Option β) : Option (Option β) :=
  some (weight.or older.join)

theorem write_write (older : Option (Option β)) (weight : Option β) :
    write (write older weight) weight = write older weight := by
  cases weight <;> rfl

theorem foldl_write_some (older : Option β) (weights : List (Option β)) :
    weights.foldl write (some older) = some ((weights.filterMap id).getLast?.or older) := by
  induction weights generalizing older with
  | nil => rfl
  | cons weight weights ih =>
    -- What was written before counts only if neither this weight nor a later one is given.
    rw [List.foldl_cons, write, ih, Option.join_some]
    rcases weight with - | weight
    · rfl
    · show _ = some ((weight :: weights.filterMap id).getLast?.or older)
      rw [List.getLast?_cons]
      cases (weights.filterMap id).getLast? <;> rfl

theorem foldl_write (weights : List (Option β)) : weights.foldl write none =
    if weights = [] then none else some (weights.filterMap id).getLast? := by
  cases weights with
  | nil => rfl
  | cons weight weights =>
    have hsome := foldl_write_some none (weight :: weights)
    rw [Option.or_none] at hsome
    rw [if_neg (List.cons_ne_nil weight weights), ← hsome]
    rfl

theorem lookup_join {κ : Type} [DecidableEq κ] (row : List (κ × Option β)) (arc : κ × Option β)
    (k : κ) : (join row arc).lookup k =
      if arc.1 = k then write (row.lookup k) arc.2 else row.lookup k := by
  rw [join]
  by_cases h : arc.1 = k
  · subst h
    rw [if_pos rfl, Entries.lookup_alter]
    rfl
  · rw [if_neg h, Entries.lookup_alter_of_ne _ _ (Ne.symm h)]

theorem lookup_foldl_ite (p : Prop) [Decidable p] (k v : Label) (weight : Option β)
    (row : List (Label × Option β)) :
    ((if p then [(k, weight)] else []).foldl join row).lookup v =
      if p ∧ k = v then write (row.lookup v) weight else row.lookup v := by
  by_cases h : p
  · simp [h, lookup_join]
  · simp [h]

/-- One insertion changes the edge from one node to another as it writes. -/
theorem lookup_foldl_arcsFrom (directed : Bool) (u v : Label) (step : Insertion β)
    (row : List (Label × Option β)) :
    ((arcsFrom directed u step).foldl join row).lookup v =
      (written directed u v step).toList.foldl write (row.lookup v) := by
  cases step with
  | node l value => rfl
  | edge t h weight =>
    rw [arcsFrom, written, List.foldl_append, lookup_foldl_ite, lookup_foldl_ite]
    have hback : (directed = false ∧ h = u) ∧ t = v ↔ directed = false ∧ t = v ∧ h = u := by tauto
    simp only [hback]
    -- An edge from a node to itself, without a direction, is put in twice.
    by_cases hforth : t = u ∧ h = v
    · simp only [hforth, and_self, true_or, if_true, write_write, ite_self]
      rfl
    · simp only [hforth, false_or, if_false]
      split_ifs <;> rfl

theorem lookup_foldl (directed : Bool) (u v : Label) (history : List (Insertion β))
    (row : List (Label × Option β)) :
    ((history.flatMap (arcsFrom directed u)).foldl join row).lookup v =
      (history.filterMap (written directed u v)).foldl write (row.lookup v) := by
  induction history generalizing row with
  | nil => rfl
  | cons step history ih =>
    rw [List.flatMap_cons, List.foldl_append, ih, lookup_foldl_arcsFrom, List.filterMap_cons]
    cases written directed u v step <;> rfl

/-- A node is joined to another as the insertions write, the last weight counting. -/
theorem lookup_neighbours (g : Graph β) (u v : Label) :
    (g.neighbours u).lookup v = if g.writings u v = [] then none
      else some ((g.writings u v).filterMap id).getLast? := by
  rw [neighbours, lookup_foldl]
  exact foldl_write (g.writings u v)

theorem lastWeight_eq (g : Graph β) (unweighted : β) (u v : Label) :
    g.lastWeight unweighted u v =
      ((g.neighbours u).lookup v).map fun weight => weight.getD unweighted := by
  rw [lookup_neighbours, lastWeight]
  by_cases h : g.writings u v = []
  · rw [if_pos h, if_pos h]
    rfl
  · rw [if_neg h, if_neg h]
    rfl

theorem weightBetween_eq (g : Graph β) (missing unweighted : β) (u v : Label) :
    g.weightBetween missing unweighted u v = (g.lastWeight unweighted u v).getD missing := by
  rw [weightBetween, lastWeight_eq]
  rcases (g.neighbours u).lookup v with - | - | weight <;> rfl

theorem mem_labels_of_writings_ne_nil {g : Graph β} (h : g.writings u v ≠ []) :
    u ∈ g.labels ∧ v ∈ g.labels := by
  obtain ⟨weight, hweight⟩ := List.exists_mem_of_ne_nil _ h
  obtain ⟨step, hstep, hwritten⟩ := List.mem_filterMap.mp hweight
  have hends : u ∈ mentions step ∧ v ∈ mentions step := by
    cases step with
    | node l value => cases hwritten
    | edge t h weight =>
      rw [written, Option.ite_none_right_eq_some] at hwritten
      rcases hwritten.1 with ⟨rfl, rfl⟩ | ⟨-, rfl, rfl⟩ <;> simp [mentions]
  exact ⟨mem_labels.mpr (List.mem_flatMap_of_mem hstep hends.1),
    mem_labels.mpr (List.mem_flatMap_of_mem hstep hends.2)⟩

theorem writings_comm {g : Graph β} (h : g.directed = false) (u v : Label) :
    g.writings u v = g.writings v u := by
  refine List.filterMap_congr fun step _ => ?_
  cases step with
  | node l value => rfl
  | edge t h weight =>
    rw [written, written]
    exact if_congr (by tauto) rfl rfl

theorem lastWeight_comm {g : Graph β} (h : g.directed = false) (unweighted : β) (u v : Label) :
    g.lastWeight unweighted u v = g.lastWeight unweighted v u := by
  rw [lastWeight, lastWeight, writings_comm h]

theorem lastWeight_of_forall {g : Graph β} {weight unweighted : β} (hne : g.writings u v ≠ [])
    (hall : ∀ given ∈ g.writings u v, given = some weight) :
    g.lastWeight unweighted u v = some weight := by
  obtain ⟨k, hk⟩ := Nat.exists_eq_succ_of_ne_zero (mt List.length_eq_zero_iff.mp hne)
  have hsame := List.eq_replicate_of_mem hall
  rw [hk] at hsame
  rw [lastWeight, if_neg hne, hsame]
  simp [List.getLast?_replicate]

theorem writings_ne_nil_of_mem_edges {g : Graph β} {weight : Option β}
    (h : (u, v, weight) ∈ g.edges) : g.writings u v ≠ [] := by
  intro hnil
  obtain ⟨-, -, -, -, -, hlookup⟩ := mem_edges.mp h
  rw [lookup_neighbours, if_pos hnil] at hlookup
  cases hlookup

/-- An edge that was put in is listed from one of its ends. -/
theorem exists_mem_edges {g : Graph β} (h : g.writings u v ≠ []) : ∃ weight,
    (u, v, weight) ∈ g.edges ∨ g.directed = false ∧ (v, u, weight) ∈ g.edges := by
  obtain ⟨hu, hv⟩ := mem_labels_of_writings_ne_nil h
  obtain ⟨i, hi⟩ := List.get_of_mem hu
  obtain ⟨j, hj⟩ := List.get_of_mem hv
  have hforth : (g.neighbours u).lookup v = some ((g.writings u v).filterMap id).getLast? := by
    rw [lookup_neighbours, if_neg h]
  refine ⟨((g.writings u v).filterMap id).getLast?, ?_⟩
  by_cases hdirected : g.directed = true
  · exact .inl (mem_edges.mpr ⟨i, j, .inl hdirected, hi, hj, hforth⟩)
  have hundirected : g.directed = false := eq_false_of_ne_true hdirected
  -- The end that comes first has the edge.
  rcases le_total i j with hle | hle
  · exact .inl (mem_edges.mpr ⟨i, j, .inr hle, hi, hj, hforth⟩)
  · have hback : (g.neighbours v).lookup u = some ((g.writings u v).filterMap id).getLast? := by
      rw [lookup_neighbours, ← writings_comm hundirected, if_neg h]
    exact .inr ⟨hundirected, mem_edges.mpr ⟨j, i, .inr hle, hj, hi, hback⟩⟩

end CityTour.Graph
