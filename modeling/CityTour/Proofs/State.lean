import Mathlib
import CityTour.Files
import CityTour.Proofs.Document.RoundTrip
import CityTour.Proofs.Number.Order
import CityTour.Proofs.Sequence

/-! Problems written as states and read back.  The rows of a network are read as a square array with
the same entries, which passes every check again; so the state of a problem gives the problem back,
and so does the text of the state, also from a file (`state_round_trip`). -/

namespace CityTour

open Document Scalar

/-! ### Arrays -/

namespace Grid

variable {α : Type}

theorem ext_toList {g h : Grid α} (hshape : g.shape = h.shape)
    (hentries : g.entries.toList = h.entries.toList) : g = h := by
  obtain ⟨s, v⟩ := g
  obtain ⟨t, w⟩ := h
  obtain rfl : s = t := hshape
  obtain rfl := Vector.toList_inj.mp hentries
  rfl

theorem stack?_eq {gs : List (Grid α)} {s : List ℕ} (hne : gs ≠ []) (h : ∀ g ∈ gs, g.shape = s)
    {stacked : Grid α} (hshape : stacked.shape = gs.length :: s)
    (hentries : stacked.entries.toList = gs.flatMap fun g => g.entries.toList) :
    stack? gs = some stacked := by
  obtain ⟨g, rest, rfl⟩ := List.exists_cons_of_ne_nil hne
  obtain ⟨hg, hrest⟩ := List.forall_mem_cons.mp h
  have hsame : ∀ x ∈ rest, x.shape = g.shape := fun x hx => (hrest x hx).trans hg.symm
  rw [stack?, dif_pos hsame, Option.some.injEq]
  refine ext_toList ?_ hentries.symm
  rw [hshape, ← hg, List.length_cons]

/-- An array of doubles, its entries still values. -/
def reals (s : List ℕ) (xs : Vector Float (cells s)) : Grid Value := ⟨s, xs.map .real⟩

theorem toList_reals (s : List ℕ) (xs : Vector Float (cells s)) :
    (reals s xs).entries.toList = xs.toList.map .real := Vector.toList_map

theorem mapM_reals (s : List ℕ) (xs : Vector Float (cells s)) :
    (reals s xs).mapM Double.ofEntry = .ok ⟨s, xs⟩ := by
  have hentries : (xs.map Value.real).mapM Double.ofEntry = .ok xs := by
    rw [Vector.mapM_map]
    exact (Vector.mapM_pure id).trans (congrArg Except.ok (Vector.map_id xs))
  rw [mapM, reals, hentries]
  rfl

variable {n : ℕ}

theorem cells_row (n : ℕ) : n = cells [n] := (Nat.mul_one n).symm

theorem cells_square (n : ℕ) : n * n = cells [n, n] := congrArg (n * ·) (cells_row n)

theorem ofItems?_map {β : Type} {item : β → Value} {grid : β → Grid Value}
    (h : ∀ x, ofNested? (item x) = some (grid x)) (xs : List β) :
    ofItems? (xs.map item) = some (xs.map grid) := by
  induction xs with
  | nil => rfl
  | cons x xs ih => rw [List.map_cons, ofItems?, ih, h]; rfl

/-- A list of single entries is an array of one dimension. -/
theorem ofNested?_list {β : Type} {item : β → Value}
    (h : ∀ x, ofNested? (item x) = some (single (item x))) (xs : List β) :
    ofNested? (.list (xs.map item)) = some (ofList (xs.map item)) := by
  rw [ofNested?, ofItems?_map h, Option.bind_some]
  by_cases hne : xs = []
  · subst hne
    rfl
  · have hshapes : ∀ g ∈ xs.map fun x => single (item x), g.shape = [] := by simp [single]
    refine stack?_eq (mt List.map_eq_nil_iff.mp hne) hshapes (by simp [ofList]) ?_
    rw [List.flatMap_map]
    exact List.map_eq_flatMap

theorem ofNested?_listOf (xs : Vector Float n) :
    ofNested? (Problem.listOf xs) = some (reals [n] (xs.cast (cells_row n))) := by
  have hentry : ∀ x, ofNested? (.real x) = some (single (.real x)) := by simp [ofNested?]
  rw [Problem.listOf, ofNested?_list hentry, Option.some.injEq]
  refine ext_toList (by simp [ofList, reals]) ?_
  rw [toList_reals, Vector.toList_cast]
  rfl

theorem toList_flatten {m : ℕ} (rows : Vector (Vector α m) n) :
    rows.flatten.toList = rows.toList.flatMap Vector.toList := by
  show (rows.toArray.map Vector.toArray).flatten.toList = _
  rw [Array.toList_flatten, Array.toList_map, List.map_map, List.flatMap_def]
  rfl

/-- The values of rows of one length are an array of two dimensions. -/
theorem ofNested?_rows (rows : Vector (Vector Float n) n) (hn : 0 < n) :
    ofNested? (.list (rows.toList.map Problem.listOf)) =
      some (reals [n, n] (rows.flatten.cast (cells_square n))) := by
  rw [ofNested?, ofItems?_map ofNested?_listOf]
  refine stack?_eq (s := [n]) (by simp; omega) (by simp [reals]) (by simp [reals]) ?_
  rw [toList_reals, Vector.toList_cast, toList_flatten, List.map_flatMap, List.flatMap_map]
  simp only [toList_reals, Vector.toList_cast]

theorem ofValue_of_nested {v : Value} {s : List ℕ} {xs : Vector Float (cells s)}
    (h : ofNested? v = some (reals s xs)) (hrank : s.length ≤ rankLimit) :
    ofValue v = .ok ⟨s, xs⟩ := by
  rw [ofValue, h]
  show (if rankLimit < s.length then _ else _) = _
  rw [if_neg (not_lt.mpr hrank), mapM_reals]

end Grid

/-! ### Networks -/

namespace Network

variable {n : ℕ}

theorem squareRows_flatten {α : Type} (rows : Vector (Vector α n) n)
    (h : n * n = cells [n, n]) :
    Weights.squareRows (rows.flatten.cast h) = rows := by
  ext i hi j hj
  have hdiv : (i * n + j) / n = i := by
    rw [Nat.mul_comm, Nat.mul_add_div (by omega), Nat.div_eq_of_lt hj, Nat.add_zero]
  simp [Weights.squareRows, Vector.get_eq_getElem, hdiv, Nat.mod_eq_of_lt hj]

/-- Checked rows pass their checks again. -/
theorem ofRows?_rows {α : Type} [Scalar α] (w : Weights α n) : Weights.ofRows? w.rows = .ok w := by
  rw [Weights.ofRows?, dif_pos w.size_pos, dif_pos w.diagonal, dif_pos w.defined, dif_pos w.nonzero]

/-- The rows of a network as one array. -/
theorem ofGrid?_rows (w : Weights Float n) (h : n * n = cells [n, n]) :
    Weights.ofGrid? ⟨[n, n], w.rows.flatten.cast h⟩ = .ok ⟨n, w⟩ := by
  rw [Weights.ofGrid?, dif_pos rfl, squareRows_flatten, ofRows?_rows]
  rfl

theorem ofValue_rows (w : Weights Float n) :
    Weights.ofValue (.list (w.rows.toList.map Problem.listOf)) = .ok ⟨n, w⟩ := by
  rw [Weights.ofValue, Grid.ofValue_of_nested (Grid.ofNested?_rows w.rows w.size_pos)
    (by simp [Grid.rankLimit])]
  exact ofGrid?_rows w _

theorem valuesOfGrid?_cast (xs : Vector Float n) (h : n = cells [n]) :
    valuesOfGrid? n ⟨[n], xs.cast h⟩ = .ok xs := by
  rw [valuesOfGrid?, dif_pos rfl, Vector.cast_cast, Vector.cast_rfl]

theorem ofParts?_parts (N : Network Float n) :
    ofParts? N.weights N.values N.budget = .ok N := by
  rw [ofParts?, dif_pos ⟨N.budget_defined, N.budget_nonneg⟩]

/-- The parts of a network, as values, are that network. -/
theorem ofValues_parts (N : Network Float n) :
    ofValues (.list (N.weights.rows.toList.map Problem.listOf)) (Problem.listOf N.values)
      (.real N.budget) = .ok ⟨n, N⟩ := by
  have hvalues := Grid.ofValue_of_nested (Grid.ofNested?_listOf N.values)
    (by simp [Grid.rankLimit])
  rw [ofValues, ofValue_rows, ok_bind]
  dsimp only
  rw [hvalues, ok_bind, valuesOfGrid?_cast, ok_bind, Double.ofValue, ok_bind, ofParts?_parts]
  rfl

end Network

/-! ### States -/

namespace Document

open Text

theorem ofString_injective : Function.Injective Symbol.ofString :=
  (List.map_injective_iff.mpr fun _ _ => Symbol.char.inj).comp fun _ _ => String.toList_inj.mp

theorem lookup?_cons (name key : String) (v : Value) (fields : List (List Symbol × Value)) :
    lookup? name ((Symbol.ofString key, v) :: fields) =
      if name = key then some v else lookup? name fields := by
  rw [lookup?, List.lookup_cons]
  by_cases h : name = key
  · rw [if_pos h, h, beq_self_eq_true]
  · rw [if_neg h, beq_false_of_ne (mt (@ofString_injective _ _) h)]
    rfl

/-- An object whose fields have plain names. -/
theorem storable_object {fields : List (String × Value)}
    (hnames : (fields.map Prod.fst).all fun name => name.toList.all isPlainChar)
    (hdistinct : (fields.map Prod.fst).Nodup) (h : ∀ f ∈ fields, Storable f.2) :
    Storable (.object (fields.map fun f => (Symbol.ofString f.1, f.2))) := by
  refine .object ?_ ?_ ?_
  · intro f hf
    obtain ⟨g, hg, rfl⟩ := List.mem_map.mp hf
    exact isPlainText_ofString (List.all_eq_true.mp hnames g.1 (List.mem_map_of_mem hg))
  · rw [List.map_map]
    have hcomp := hdistinct.map ofString_injective
    rwa [List.map_map] at hcomp
  · intro f hf
    obtain ⟨g, hg, rfl⟩ := List.mem_map.mp hf
    exact h g hg

theorem storable_listOf {n : ℕ} (xs : Vector Float n) : Storable (Problem.listOf xs) := by
  refine .list fun v hv => ?_
  obtain ⟨x, -, rfl⟩ := List.mem_map.mp hv
  exact .real x

end Document

namespace Problem

variable (p : Problem Float)

theorem ofValue_key (e : Encoding) : Encoding.ofValue (.ofString e.key) = .ok e := by
  cases e <;> rfl

theorem ofValues_parts :
    ofValues (.list (p.network.weights.rows.toList.map listOf)) (listOf p.network.values)
      (.real p.network.budget) (.ofString p.encoding.key) = .ok p := by
  have hnetwork := Network.ofValues_parts p.network
  rw [listOf] at hnetwork ⊢
  rw [ofValues]
  · rw [hnetwork, ok_bind]
    dsimp only
    rw [ofValue_key, ok_bind]
    rfl
  all_goals nofun

/-- The state of a problem gives the problem. -/
theorem ofState_toState : ofState p.toState = .ok p := by
  rw [toState, ofState]
  simp [stateField, lookup?_cons, isStateVersion, ok_bind, ofValues_parts]

theorem storable_toState : Storable p.toState := by
  rw [toState]
  refine storable_object (by simp [isPlainChar]) (by simp) ?_
  have hweights : Storable (.list (p.network.weights.rows.toList.map listOf)) := by
    refine .list fun v hv => ?_
    obtain ⟨row, -, rfl⟩ := List.mem_map.mp hv
    exact storable_listOf row
  have hkey : Storable (.ofString p.encoding.key) :=
    .text (isPlainText_ofString (by cases p.encoding <;> rfl))
  simp only [List.forall_mem_cons]
  exact ⟨.int (by decide), hweights, storable_listOf _, .real _, hkey, List.forall_mem_nil _⟩

end Problem

/-! ### Files -/

namespace Files

variable {files : Files} {path text : String}

theorem destination_cons : Files.destination ((path, text) :: files) path = .file text := by
  simp [destination]

/-- A file that was written is found under its path. -/
theorem text_cons (h : checkTarget path = .ok ()) :
    Files.text ((path, text) :: files) path = .ok (Text.unifyLines text.toList) := by
  have hnull : '\x00' ∉ path.toList := by
    intro hmem
    rw [checkTarget, if_pos hmem] at h
    cases h
  rw [Files.text, if_neg hnull, destination_cons]

end Files

/-! ### Equal problems -/

theorem vector_beq_iff {β : Type} [BEq β] {n : ℕ} (xs ys : Vector β n) :
    (xs == ys) = true ↔ ∀ i : Fin n, (xs.get i == ys.get i) = true := by
  simp [Vector.beq_eq_decide, Vector.get_eq_getElem, Fin.forall_iff]

theorem Double.isUndefined_eq_false {x : Float} : isUndefined x = false ↔ (x == x) = true := by
  rw [isUndefined, Bool.not_eq_false']

/-- Weights equal themselves. -/
theorem Weights.rows_beq_self {n : ℕ} (w : Weights Float n) : (w.rows == w.rows) = true := by
  refine (vector_beq_iff _ _).mpr fun i => (vector_beq_iff _ _).mpr fun j => ?_
  rcases eq_or_ne i j with rfl | hne
  · rw [Double.beq_self_iff]
    intro hundefined
    have hzero := w.diagonal i
    rw [Double.beq_of_undefined hundefined] at hzero
    cases hzero
  · exact Double.isUndefined_eq_false.mp (w.defined i j hne)

namespace Problem

/-- A problem equals itself exactly if the value of every city is a number or infinite. -/
theorem same_self_iff (p : Problem Float) :
    p.same p = true ↔ ∀ i, isUndefined (p.network.value i) = false := by
  have hbudget := Double.isUndefined_eq_false.mp p.network.budget_defined
  rw [same, Network.same, dif_pos rfl, hbudget, Weights.rows_beq_self]
  simp only [beq_self_eq_true, Bool.true_and]
  rw [vector_beq_iff]
  exact forall_congr' fun i => Double.isUndefined_eq_false.symm

/-- The state of a problem gives the problem back; so does its text, and so does a file once the
text is written to it.  What comes back equals the problem unless the value of a city is no
number. -/
theorem state_round_trip (p : Problem Float) :
    ofState p.toState = .ok p ∧ Document.read p.toText.toList = .ok p.toState ∧
      (∀ (files : Files) (path : String), Files.checkTarget path = .ok () →
        (Files.text ((path, p.toText) :: files) path).map Document.read = .ok (.ok p.toState) ∧
          Files.loadProblem ((path, p.toText) :: files) path = .ok p) ∧
      (p.same p = true ↔ ∀ i, isUndefined (p.network.value i) = false) := by
  have hstorable := storable_toState p
  refine ⟨ofState_toState p, read_write hstorable, fun files path hpath => ?_, same_self_iff p⟩
  have htext := @Files.text_cons files path p.toText hpath
  rw [toText, unifyLines_write hstorable] at htext
  rw [Files.loadProblem, toText, htext, ok_bind, ofText, read_write hstorable]
  refine ⟨?_, ofState_toState p⟩
  rw [Except.map, read_write hstorable]

/-- A file that is there already, under another spelling of its path, is replaced. -/
theorem state_round_trip_triangle :
    Files.checkTarget "problems/./triangle.json" = .ok () ∧
      Files.loadProblem [("problems/./triangle.json", (mk 3 Network.triangle .full).toText),
        ("problems/triangle.json", "")] "problems/./triangle.json" =
          .ok ⟨3, Network.triangle, .full⟩ := by
  have hpath : Files.checkTarget "problems/./triangle.json" = .ok () := rfl
  obtain ⟨-, -, hfiles, -⟩ := state_round_trip ⟨3, Network.triangle, .full⟩
  exact ⟨hpath, (hfiles [("problems/triangle.json", "")] _ hpath).2⟩

end Problem

end CityTour
