import Mathlib
import CityTour.Files
import CityTour.Proofs.Number.Place
import CityTour.Proofs.State

/-! Which arrays form a network.  The conditions on an array of weights, the values and a budget
stand in the order in which they are checked; a network is made exactly if all of them hold, of
the same numbers, and otherwise the first broken one says why not (`ofGrids?_outcome`).  Every
problem satisfies them, however it was obtained. -/

namespace CityTour

open Scalar

theorem Double.reading_ne_undefined {x : Float} (h : isUndefined x = false) :
    Double.reading x ≠ .undefined := (Double.beq_self_iff x).mp (Double.isUndefined_eq_false.mp h)

/-! ### Square arrays -/

namespace Grid

variable {α : Type} {n : ℕ}

/-- Rows as a square array. -/
def ofRows (rows : Vector (Vector α n) n) : Grid α := ⟨[n, n], rows.flatten.cast (cells_square n)⟩

/-- The length of the first dimension. -/
def side (g : Grid α) : ℕ := g.shape.headD 0

theorem place_coe (i : Fin n) : place n i = .ok i.val := by
  rw [place, if_pos ⟨by omega, by omega⟩, Int.toNat_natCast]

theorem entryAt_ofRows [Zero α] (rows : Vector (Vector α n) n) (i j : Fin n) :
    (ofRows rows).entryAt i j = .ok ((rows.get i).get j) := by
  have hdiv : (i.val * n + j.val) / n = i.val := by
    rw [Nat.mul_comm, Nat.mul_add_div i.pos, Nat.div_eq_of_lt j.isLt, Nat.add_zero]
  have hcell : i.val * n + j.val < n * n := (Weights.cell_lt i j).trans_eq (cells_square n).symm
  have hentry : (rows.flatten.cast (cells_square n))[(i.val * n + j.val) * cells []]? =
      some ((rows.get i).get j) := by
    rw [cells, Nat.mul_one, Vector.getElem?_eq_getElem (by rwa [← cells_square]),
      Vector.getElem_cast, Vector.getElem_flatten]
    simp [hdiv, Nat.mod_eq_of_lt j.isLt, Vector.get_eq_getElem]
  show (place n i >>= fun row => place n j >>= fun column => Except.ok
    ((rows.flatten.cast (cells_square n))[(row * n + column) * cells []]?.getD 0)) = _
  rw [place_coe, ok_bind, place_coe, ok_bind, hentry, Option.getD_some]

theorem flatten_squareRows (entries : Vector α (cells [n, n])) :
    (Weights.squareRows entries).flatten.cast (cells_square n) = entries := by
  ext k hk
  simp [Weights.squareRows, Vector.get_eq_getElem, Nat.div_add_mod']

/-- An array with as many rows as columns is one of rows. -/
theorem exists_ofRows {g : Grid α} (h : g.shape = [n, n]) :
    ∃ rows : Vector (Vector α n) n, g = ofRows rows := by
  obtain ⟨shape, entries⟩ := g
  obtain rfl : shape = [n, n] := h
  exact ⟨Weights.squareRows entries,
    ext_toList rfl (congrArg Vector.toList (flatten_squareRows entries).symm)⟩

theorem exists_entryAt_iff [Zero α] {P : α → Prop} (rows : Vector (Vector α n) n) (i j : Fin n) :
    (∃ w, (ofRows rows).entryAt i j = .ok w ∧ P w) ↔ P ((rows.get i).get j) := by
  rw [entryAt_ofRows]
  simp

end Grid

/-! ### The first broken condition -/

/-- Of conditions in order, each with what is said when it is broken, the first broken one. -/
inductive FirstBroken : List (Prop × Refusal) → Refusal → Prop
  | here {holds : Prop} {reason : Refusal} {later : List (Prop × Refusal)} :
      ¬ holds → FirstBroken ((holds, reason) :: later) reason
  | later {holds : Prop} {reason other : Refusal} {later : List (Prop × Refusal)} :
      holds → FirstBroken later other → FirstBroken ((holds, reason) :: later) other

namespace FirstBroken

variable {conditions more : List (Prop × Refusal)} {reason other : Refusal}

theorem not_forall (h : FirstBroken conditions reason) : ¬ ∀ c ∈ conditions, c.1 := by
  induction h with
  | here hbroken => exact fun hall => hbroken (hall _ List.mem_cons_self)
  | later _ _ ih => exact fun hall => ih fun c hc => hall c (List.mem_cons_of_mem _ hc)

theorem unique (h : FirstBroken conditions reason) (h' : FirstBroken conditions other) :
    reason = other := by
  induction h with
  | here hbroken =>
    cases h' with
    | here => rfl
    | later hholds => exact absurd hholds hbroken
  | later hholds _ ih =>
    cases h' with
    | here hbroken => exact absurd hholds hbroken
    | later _ hlater => exact ih hlater

theorem append_left (h : FirstBroken conditions reason) :
    FirstBroken (conditions ++ more) reason := by
  induction h with
  | here hbroken => exact .here hbroken
  | later hholds _ ih => exact .later hholds ih

theorem append_right (hall : ∀ c ∈ conditions, c.1) (h : FirstBroken more reason) :
    FirstBroken (conditions ++ more) reason := by
  induction conditions with
  | nil => exact h
  | cons c conditions ih =>
    obtain ⟨hholds, hrest⟩ := List.forall_mem_cons.mp hall
    exact .later hholds (ih hrest)

end FirstBroken

/-! ### Weights -/

namespace Weights

variable {n : ℕ} {w : Grid Float}

/-- What an array of weights has to satisfy, in order. -/
def conditions (w : Grid Float) : List (Prop × Refusal) :=
  [(w.shape = [w.side, w.side], .notSquare),
    (0 < w.side, .noCities),
    (∀ i : Fin w.side, ∃ x, w.entryAt i i = .ok x ∧ (x == 0) = true, .diagonalNotZero),
    (∀ i j : Fin w.side, i ≠ j → ∃ x, w.entryAt i j = .ok x ∧ isUndefined x = false,
      .undefinedWeight),
    (∀ i j : Fin w.side, i ≠ j → ∃ x, w.entryAt i j = .ok x ∧ (x == 0) = false, .zeroWeight)]

theorem ofGrid?_of_not_square (h : w.shape ≠ [w.side, w.side]) : ofGrid? w = refuse .notSquare := by
  obtain ⟨shape, entries⟩ := w
  rcases shape with - | ⟨rows, - | ⟨columns, - | ⟨depth, deeper⟩⟩⟩
  · rfl
  · rfl
  · have hne : rows ≠ columns := by
      rintro rfl
      exact h rfl
    rw [ofGrid?, dif_neg hne]
  · rfl

theorem ofGrid?_ofRows (rows : Vector (Vector Float n) n) :
    ofGrid? (Grid.ofRows rows) = (ofRows? rows).map fun w => ⟨n, w⟩ := by
  rw [Grid.ofRows, ofGrid?, dif_pos rfl, Network.squareRows_flatten]

theorem diagonal_iff (P : Float → Prop) (rows : Vector (Vector Float n) n) :
    (∀ i : Fin n, ∃ x, (Grid.ofRows rows).entryAt i i = .ok x ∧ P x) ↔
      ∀ i : Fin n, P ((rows.get i).get i) :=
  forall_congr' fun i => Grid.exists_entryAt_iff rows i i

theorem between_iff (P : Float → Prop) (rows : Vector (Vector Float n) n) :
    (∀ i j : Fin n, i ≠ j → ∃ x, (Grid.ofRows rows).entryAt i j = .ok x ∧ P x) ↔
      ∀ i j : Fin n, i ≠ j → P ((rows.get i).get j) :=
  forall_congr' fun i => forall_congr' fun j => imp_congr_right fun _ =>
    Grid.exists_entryAt_iff rows i j

theorem forall_conditions_ofRows (rows : Vector (Vector Float n) n) :
    (∀ c ∈ conditions (.ofRows rows), c.1) ↔ 0 < n ∧ (∀ i, ((rows.get i).get i == 0) = true) ∧
      (∀ i j, i ≠ j → isUndefined ((rows.get i).get j) = false) ∧
      ∀ i j, i ≠ j → ((rows.get i).get j == 0) = false := by
  have hdiagonal := diagonal_iff (fun x => (x == 0) = true) rows
  have hdefined := between_iff (fun x => isUndefined x = false) rows
  have hnonzero := between_iff (fun x => (x == 0) = false) rows
  simp only [conditions, List.forall_mem_cons]
  constructor
  · rintro ⟨-, hn, hd, hu, hz, -⟩
    exact ⟨hn, hdiagonal.mp hd, hdefined.mp hu, hnonzero.mp hz⟩
  · rintro ⟨hn, hd, hu, hz⟩
    exact ⟨rfl, hn, hdiagonal.mpr hd, hdefined.mpr hu, hnonzero.mpr hz, List.forall_mem_nil _⟩

theorem ofRows?_cases (rows : Vector (Vector Float n) n) :
    (∃ reason, FirstBroken (conditions (.ofRows rows)) reason ∧ ofRows? rows = refuse reason) ∨
    (∀ c ∈ conditions (.ofRows rows), c.1) ∧ ∃ W : Weights Float n,
      ofRows? rows = .ok W ∧ W.rows = rows := by
  -- The checks of `ofRows?`, one after the other.
  by_cases hn : 0 < n
  swap
  · refine .inl ⟨_, .later rfl (.here hn), ?_⟩
    rw [ofRows?, dif_neg hn]
  by_cases hd : ∀ i : Fin n, ((rows.get i).get i == 0) = true
  swap
  · refine .inl ⟨_, .later rfl (.later hn (.here (mt (diagonal_iff _ rows).mp hd))), ?_⟩
    rw [ofRows?, dif_pos hn, dif_neg hd]
  have hdiag := (diagonal_iff (fun x => (x == 0) = true) rows).mpr hd
  by_cases hu : ∀ i j : Fin n, i ≠ j → isUndefined ((rows.get i).get j) = false
  swap
  · refine .inl ⟨_, .later rfl (.later hn (.later hdiag
      (.here (mt (between_iff _ rows).mp hu)))), ?_⟩
    rw [ofRows?, dif_pos hn, dif_pos hd, dif_neg hu]
  have hdefined := (between_iff (fun x => isUndefined x = false) rows).mpr hu
  by_cases hz : ∀ i j : Fin n, i ≠ j → ((rows.get i).get j == 0) = false
  swap
  · refine .inl ⟨_, .later rfl (.later hn (.later hdiag (.later hdefined
      (.here (mt (between_iff _ rows).mp hz))))), ?_⟩
    rw [ofRows?, dif_pos hn, dif_pos hd, dif_pos hu, dif_neg hz]
  have hall := (forall_conditions_ofRows rows).mpr ⟨hn, hd, hu, hz⟩
  refine .inr ⟨hall, ⟨rows, hn, hd, hu, hz⟩, ?_, rfl⟩
  rw [ofRows?, dif_pos hn, dif_pos hd, dif_pos hu, dif_pos hz]

/-- Either a condition is broken and the first one is the reason of a refusal, or all conditions
hold and the rows of the array are weights. -/
theorem ofGrid?_cases (w : Grid Float) :
    (∃ reason, FirstBroken (conditions w) reason ∧ ofGrid? w = refuse reason) ∨
    (∀ c ∈ conditions w, c.1) ∧ ∃ W : Weights Float w.side,
      ofGrid? w = .ok ⟨w.side, W⟩ ∧ Grid.ofRows W.rows = w := by
  by_cases hsquare : w.shape = [w.side, w.side]
  · have hrows := Grid.exists_ofRows hsquare
    generalize w.side = n at hrows
    obtain ⟨rows, rfl⟩ := hrows
    rcases ofRows?_cases rows with ⟨reason, hbroken, hrefused⟩ | ⟨hall, W, hok, rfl⟩
    · exact .inl ⟨reason, hbroken, by rw [ofGrid?_ofRows, hrefused]; rfl⟩
    · exact .inr ⟨hall, W, by rw [ofGrid?_ofRows, hok]; rfl, rfl⟩
  · exact .inl ⟨_, .here hsquare, ofGrid?_of_not_square hsquare⟩

end Weights

/-! ### Networks -/

namespace Network

variable {n : ℕ} {w : Grid Float} {v : List Float} {b : Float}

/-- What an array of weights, the values of the cities and a budget have to satisfy, in order. -/
def conditions (w : Grid Float) (v : List Float) (b : Float) : List (Prop × Refusal) :=
  Weights.conditions w ++ [(v.length = w.side, .valueCount),
    (isUndefined b = false ∧ 0 ≤ b, .badBudget)]

/-- The weights, values and budget of a network are the given ones. -/
def Holds (N : Network Float n) (w : Grid Float) (v : List Float) (b : Float) : Prop :=
  Grid.ofRows N.weights.rows = w ∧ N.values.toList = v ∧ N.budget = b

theorem exists_valuesOfGrid? (h : v.length = n) :
    ∃ values : Vector Float n, valuesOfGrid? n (.ofList v) = .ok values ∧ values.toList = v := by
  subst h
  exact ⟨⟨v.toArray, rfl⟩, dif_pos rfl, rfl⟩

theorem valuesOfGrid?_of_length_ne (h : v.length ≠ n) :
    valuesOfGrid? n (.ofList v) = refuse .valueCount := dif_neg h

theorem defined_and_nonneg_iff (b : Float) :
    isUndefined b = false ∧ 0 ≤ b ↔ isUndefined b = false ∧ ¬ b < 0 := by
  refine and_congr_right fun hb => ?_
  have hdefined := Double.reading_ne_undefined hb
  have hzero : Double.reading 0 ≠ .undefined := by decide +kernel
  rw [Double.le_iff_place_le hzero hdefined, Double.lt_iff_place_lt hdefined hzero, not_lt]

/-- Either a condition is broken and the first one is the reason of a refusal, or all conditions
hold and there is a network of the given numbers. -/
theorem ofGrids?_cases (w : Grid Float) (v : List Float) (b : Float) :
    (∃ reason, FirstBroken (conditions w v b) reason ∧
      ofGrids? w (.ofList v) b = refuse reason) ∨
    (∀ c ∈ conditions w v b, c.1) ∧ ∃ N : Network Float w.side,
      ofGrids? w (.ofList v) b = .ok ⟨w.side, N⟩ ∧ N.Holds w v b := by
  rcases Weights.ofGrid?_cases w with ⟨reason, hbroken, hrefused⟩ | ⟨hall, W, hok, hrows⟩
  · refine .inl ⟨reason, hbroken.append_left, ?_⟩
    rw [ofGrids?, hrefused]
    rfl
  by_cases hv : v.length = w.side
  swap
  · refine .inl ⟨_, .append_right hall (.here hv), ?_⟩
    rw [ofGrids?, hok, ok_bind]
    dsimp only
    rw [valuesOfGrid?_of_length_ne hv]
    rfl
  obtain ⟨values, hvalues, hlist⟩ := exists_valuesOfGrid? hv
  by_cases hb : isUndefined b = false ∧ ¬ b < 0
  swap
  · refine .inl ⟨_, .append_right hall (.later hv
      (.here (mt (defined_and_nonneg_iff b).mp hb))), ?_⟩
    rw [ofGrids?, hok, ok_bind]
    dsimp only
    rw [hvalues, ok_bind, ofParts?, dif_neg hb]
    rfl
  refine .inr ⟨List.forall_mem_append.mpr ⟨hall, ?_⟩, ⟨W, values, b, hb.1, hb.2⟩, ?_, hrows, hlist,
    rfl⟩
  · simp only [List.forall_mem_cons]
    exact ⟨hv, (defined_and_nonneg_iff b).mpr hb, List.forall_mem_nil _⟩
  · rw [ofGrids?, hok, ok_bind]
    dsimp only
    rw [hvalues, ok_bind, ofParts?, dif_pos hb]
    rfl

theorem exists_ofGrids?_iff :
    (∃ N, ofGrids? w (.ofList v) b = .ok N) ↔ ∀ c ∈ conditions w v b, c.1 := by
  rcases ofGrids?_cases w v b with ⟨reason, hbroken, hrefused⟩ | ⟨hall, N, hok, -⟩
  · rw [hrefused]
    exact iff_of_false nofun hbroken.not_forall
  · exact iff_of_true ⟨_, hok⟩ hall

theorem ofGrids?_eq_error_iff (fault : Fault) : ofGrids? w (.ofList v) b = .error fault ↔
    ∃ reason, fault = .refused reason ∧ FirstBroken (conditions w v b) reason := by
  rcases ofGrids?_cases w v b with ⟨reason, hbroken, hrefused⟩ | ⟨hall, N, hok, -⟩
  · rw [hrefused]
    constructor
    · rintro ⟨⟩
      exact ⟨reason, rfl, hbroken⟩
    · rintro ⟨other, rfl, hother⟩
      rw [hbroken.unique hother]
      rfl
  · rw [hok]
    refine iff_of_false nofun ?_
    rintro ⟨reason, -, hbroken⟩
    exact hbroken.not_forall hall

theorem holds_of_ofGrids? {N : Network Float n} (h : ofGrids? w (.ofList v) b = .ok ⟨n, N⟩) :
    N.Holds w v b := by
  rcases ofGrids?_cases w v b with ⟨reason, -, hrefused⟩ | ⟨-, M, hok, hholds⟩
  · rw [hrefused] at h
    cases h
  · rw [hok] at h
    cases h
    exact hholds

/-- The checks let the numbers of a network through and give the network back. -/
theorem ofGrids?_parts (N : Network Float n) :
    ofGrids? (.ofRows N.weights.rows) (.ofList N.values.toList) N.budget = .ok ⟨n, N⟩ := by
  have hvalues : Grid.ofList N.values.toList = ⟨[n], N.values.cast (Grid.cells_row n)⟩ := by
    refine Grid.ext_toList (by simp [Grid.ofList]) ?_
    rw [Vector.toList_cast]
    rfl
  have hweights : Weights.ofGrid? (.ofRows N.weights.rows) = .ok ⟨n, N.weights⟩ :=
    ofGrid?_rows N.weights _
  rw [ofGrids?, hweights, ok_bind, hvalues]
  dsimp only
  rw [valuesOfGrid?_cast, ok_bind, ofParts?_parts]
  rfl

/-- Document values that stand for arrays are checked as the arrays. -/
theorem ofValues_eq {weights values budget : Document.Value}
    (hweights : Grid.ofValue weights = .ok w) (hvalues : Grid.ofValue values = .ok (.ofList v))
    (hbudget : Double.ofValue budget = .ok b) :
    ofValues weights values budget = ofGrids? w (.ofList v) b := by
  have hchecked : Weights.ofValue weights = Weights.ofGrid? w := by
    rw [Weights.ofValue, hweights]
  simp only [ofValues, ofGrids?, hchecked, hvalues, hbudget, ok_bind]

/-! ### The least value -/

theorem place_least {x y : Float} (hx : isUndefined x = false) (hy : isUndefined y = false) :
    Double.place (least x y) = min (Double.place x) (Double.place y) := by
  have hlt := Double.lt_iff_place_lt (Double.reading_ne_undefined hy)
    (Double.reading_ne_undefined hx)
  simp only [least, hx, hy, Bool.false_eq_true, if_false]
  by_cases h : y < x
  · rw [if_pos h, min_eq_right (hlt.mp h).le]
  · rw [if_neg h, min_eq_left (not_lt.mp (mt hlt.mpr h))]

theorem least_eq_or (x y : Float) : least x y = x ∨ least x y = y := by
  rw [least]
  split_ifs <;> simp

/-- Going through numbers from the first one on finds one of them at the least place. -/
theorem foldl_least {first : Float} {rest : List Float}
    (h : ∀ x ∈ first :: rest, isUndefined x = false) :
    rest.foldl least first ∈ first :: rest ∧
      ∀ x ∈ first :: rest, Double.place (rest.foldl least first) ≤ Double.place x := by
  induction rest generalizing first with
  | nil => simp
  | cons y rest ih =>
    obtain ⟨hfirst, hy, hrest⟩ := by simpa only [List.forall_mem_cons] using h
    have hplace := place_least hfirst hy
    have hdefined : isUndefined (least first y) = false := by
      rcases least_eq_or first y with heq | heq <;> rwa [heq]
    obtain ⟨hmem, hle⟩ := ih (List.forall_mem_cons.mpr ⟨hdefined, hrest⟩)
    obtain ⟨hleast, hothers⟩ := List.forall_mem_cons.mp hle
    rw [hplace, le_min_iff] at hleast
    refine ⟨?_, ?_⟩
    · rw [List.foldl_cons]
      rcases List.mem_cons.mp hmem with heq | hin
      · rw [heq]
        rcases least_eq_or first y with heq | heq <;> simp [heq]
      · exact List.mem_cons_of_mem _ (List.mem_cons_of_mem _ hin)
    · simp only [List.forall_mem_cons]
      exact ⟨hleast.1, hleast.2, hothers⟩

theorem leastValue_isLeast (N : Network Float n)
    (h : ∀ x ∈ N.values.toList, isUndefined x = false) :
    N.leastValue ∈ N.values.toList ∧ ∀ x ∈ N.values.toList, N.leastValue ≤ x := by
  have hn := N.size_pos
  have hlen : N.values.toList.length = n := Vector.length_toList
  rw [leastValue]
  cases hlist : N.values.toList with
  | nil =>
    rw [hlist, List.length_nil] at hlen
    omega
  | cons first rest =>
    rw [hlist] at h
    obtain ⟨hmem, hle⟩ := foldl_least h
    refine ⟨hmem, fun x hx => ?_⟩
    exact (Double.le_iff_place_le (Double.reading_ne_undefined (h _ hmem))
      (Double.reading_ne_undefined (h x hx))).mpr (hle x hx)

/-! ### All inputs -/

/-- Arrays of any shape form a network exactly if they satisfy all conditions, and otherwise the
first broken one is the reason of the refusal.  The network holds the same numbers, and its least
value is that of the values if all of them are numbers or infinite.  Document values that stand for
arrays are checked as the arrays.  The numbers of every problem, whichever way it was obtained,
satisfy the conditions and give its network again. -/
theorem ofGrids?_outcome (w : Grid Float) (v : List Float) (b : Float) :
    ((∃ N, ofGrids? w (.ofList v) b = .ok N) ↔ ∀ c ∈ conditions w v b, c.1) ∧
    (∀ fault, ofGrids? w (.ofList v) b = .error fault ↔
      ∃ reason, fault = .refused reason ∧ FirstBroken (conditions w v b) reason) ∧
    (∀ (n : ℕ) (N : Network Float n), ofGrids? w (.ofList v) b = .ok ⟨n, N⟩ →
      N.Holds w v b ∧ ((∀ x ∈ v, isUndefined x = false) →
        N.leastValue ∈ v ∧ ∀ x ∈ v, N.leastValue ≤ x)) ∧
    (∀ weights values budget, Grid.ofValue weights = .ok w →
      Grid.ofValue values = .ok (.ofList v) → Double.ofValue budget = .ok b →
        ofValues weights values budget = ofGrids? w (.ofList v) b) ∧
    ∀ p : Problem Float,
      (∀ c ∈ conditions (.ofRows p.network.weights.rows) p.network.values.toList p.network.budget,
        c.1) ∧
      ofGrids? (.ofRows p.network.weights.rows) (.ofList p.network.values.toList)
        p.network.budget = .ok ⟨p.size, p.network⟩ := by
  refine ⟨exists_ofGrids?_iff, ofGrids?_eq_error_iff, fun n N h => ?_,
    fun _ _ _ => ofValues_eq, fun p => ?_⟩
  · have hholds := holds_of_ofGrids? h
    refine ⟨hholds, ?_⟩
    rw [← hholds.2.1]
    exact N.leastValue_isLeast
  · exact ⟨exists_ofGrids?_iff.mp ⟨_, p.network.ofGrids?_parts⟩, p.network.ofGrids?_parts⟩

/-- Rows with a weight that is no number and a weight of zero. -/
def spoiltRows : Vector (Vector Float 2) 2 := #v[#v[0, Double.undefined], #v[0, 0]]

/-- The weights are refused before a missing value and a negative budget, and the one that is no
number before the zero. -/
theorem ofGrids?_outcome_spoilt : ofGrids? (.ofRows spoiltRows) (.ofList [1]) (-1) =
    .error (.refused .undefinedWeight) := by
  have hdiagonal : ∀ i : Fin 2, ∃ x, (Grid.ofRows spoiltRows).entryAt i i = .ok x ∧
      (x == 0) = true := fun i =>
    (Grid.exists_entryAt_iff spoiltRows i i).mpr (by revert i; decide +kernel)
  have hundefined : ¬ ∀ i j : Fin 2, i ≠ j → ∃ x, (Grid.ofRows spoiltRows).entryAt i j = .ok x ∧
      isUndefined x = false := fun hall =>
    absurd ((Grid.exists_entryAt_iff spoiltRows 0 1).mp (hall 0 1 (by decide))) (by decide +kernel)
  have hbroken : FirstBroken (Weights.conditions (.ofRows spoiltRows)) .undefinedWeight :=
    .later rfl (.later Nat.two_pos (.later hdiagonal (.here hundefined)))
  obtain ⟨-, hrefused, -⟩ := ofGrids?_outcome (.ofRows spoiltRows) [1] (-1)
  exact (hrefused _).mpr ⟨_, rfl, hbroken.append_left⟩

end Network

end CityTour
