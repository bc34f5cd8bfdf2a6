import Mathlib
import CityTour.Arc
import CityTour.Proofs.Arc.Index
import CityTour.Proofs.Tour

/-! The walk along selected arcs, for any row that is long enough.  `successor` is the city to which
the walk goes on from a city, whatever it did before; `walk_eq` says that the walk of a long enough
row visits the iterates of `successor` from the first city on.  The label of a city counts the steps
up to the last visit (`labelsOf_eq`). -/

namespace CityTour.Arc

variable {α : Type} [Scalar α] {n : ℕ}

/-- Whether a row selects an arc. -/
def selected (x : List α) (i j : Fin n) : Bool := x[index i j]?.any (· == 1)

/-- The first other city to which a selected arc leads, or the city itself if there is none. -/
def successor (x : List α) (i : Fin n) : Fin n :=
  ((List.finRange n).find? fun j => decide (j ≠ i) && selected x i j).getD i

variable {x : List α}

theorem firstSelected_eq (hx : n * (n - 1) ≤ x.length) (here : Fin n) (cities : List (Fin n)) :
    firstSelected x here cities =
      .ok (cities.find? fun j => decide (j ≠ here) && selected x here j) := by
  induction cities with
  | nil => rfl
  | cons j rest ih =>
    rw [firstSelected, List.find?_cons]
    by_cases hj : j = here
    · simp [hj, ih]
    · have hlt : index here j < x.length := (index_lt (Ne.symm hj)).trans_le hx
      have hentry : entry x here j = .ok x[index here j] :=
        entry_eq_ok (Ne.symm hj) (List.getElem?_eq_getElem hlt)
      have hsel : selected x here j = (x[index here j] == 1) := by
        rw [selected, List.getElem?_eq_getElem hlt]
        rfl
      rw [if_neg hj, hentry, hsel, ih]
      show (if (x[index here j] == 1) = true then Except.ok (some j) else _) = _
      cases x[index here j] == 1 with
      | false => simp
      | true => simp [hj]

/-- From a city that was chosen last, the walk visits the iterates of `successor`. -/
theorem walkFrom_eq (hx : n * (n - 1) ≤ x.length) (steps : ℕ) (here : Fin n) :
    walkFrom x steps here here = .ok (List.iterate (successor x) here steps) := by
  induction steps generalizing here with
  | zero => rfl
  | succ steps ih =>
    rw [walkFrom, firstSelected_eq hx]
    show (walkFrom x steps (successor x here) (successor x here) >>= _) = _
    rw [ih]
    rfl

theorem walk_eq (hx : n * (n - 1) ≤ x.length) (hn : 0 < n) :
    walk n x = .ok (List.iterate (successor x) ⟨0, hn⟩ n) := by
  rw [walk, dif_pos hn, walkFrom_eq hx]

theorem exists_walk (hx : n * (n - 1) ≤ x.length) (hn : 0 < n) :
    ∃ visits : List (Fin n), walk n x = .ok visits := ⟨_, walk_eq hx hn⟩

theorem labels_of_walk {visits : List (Fin n)} (hwalk : walk n x = .ok visits) :
    labels n x = .ok (labelsOf visits) := by
  rw [labels, hwalk]
  rfl

/-- The walk goes on as a map says if the selected arcs are the arcs along the map. -/
theorem successor_eq {f : Fin n → Fin n}
    (h : ∀ i j, i ≠ j → selected x i j = decide (f i = j)) : successor x = f := by
  funext i
  have hsel : (fun j => decide (j ≠ i) && selected x i j) =
      fun j => decide (j ≠ i ∧ f i = j) := by
    funext j
    by_cases hj : j = i
    · simp [hj]
    · rw [h i j (Ne.symm hj), Bool.decide_and]
  rw [successor, hsel]
  by_cases hfix : f i = i
  · rw [List.find?_eq_none.mpr (by simp [hfix, eq_comm])]
    exact hfix.symm
  · have hfound : ((List.finRange n).find? fun j => j ≠ i ∧ f i = j).isSome :=
      List.find?_isSome.mpr ⟨f i, List.mem_finRange _, decide_eq_true ⟨hfix, rfl⟩⟩
    obtain ⟨j, hj⟩ := Option.isSome_iff_exists.mp hfound
    have hnext := List.find?_some hj
    rw [hj]
    exact (of_decide_eq_true hnext).2.symm

/-! ### Labels -/

variable {visits : List (Fin n)}

theorem labelsOf_append (visits : List (Fin n)) (c : Fin n) :
    labelsOf (visits ++ [c]) = (labelsOf visits).set c (visits.length + 1) := by
  simp [labelsOf, List.zipIdx_append]

/-- The label of a city is the count of the steps up to its last visit, and zero without a visit. -/
theorem labelsOf_eq (visits : List (Fin n)) (c : Fin n) :
    (labelsOf visits).get c = visits.length - visits.reverse.idxOf c := by
  -- The last visit decides, so the visits are read from their end.
  induction visits using List.reverseRecOn with
  | nil => simp [labelsOf]
  | append_singleton visits d ih =>
    rw [labelsOf_append]
    by_cases h : d = c
    · subst h
      simp [Vector.get_eq_getElem]
    · have hne : d.val ≠ c.val := Fin.val_ne_of_ne h
      rw [Vector.get_eq_getElem] at ih ⊢
      rw [Vector.getElem_set_ne _ _ hne, ih]
      simp [List.idxOf_cons_ne _ h]

theorem labelsOf_le (c : Fin n) : (labelsOf visits).get c ≤ visits.length := by
  rw [labelsOf_eq]
  omega

theorem labelsOf_of_not_mem {c : Fin n} (h : c ∉ visits) : (labelsOf visits).get c = 0 := by
  rw [labelsOf_eq, List.idxOf_eq_length (by simpa using h)]
  simp

theorem labelsOf_getElem (h : visits.Nodup) {k : ℕ} (hk : k < visits.length) :
    (labelsOf visits).get visits[k] = k + 1 := by
  have hlast : visits.length - 1 - k < visits.reverse.length := by
    rw [List.length_reverse]
    omega
  have hrev : visits.reverse[visits.length - 1 - k] = visits[k] := by
    rw [List.getElem_reverse]
    congr 1
    omega
  have hidx := (List.nodup_reverse.mpr h).idxOf_getElem (visits.length - 1 - k) hlast
  rw [labelsOf_eq, ← hrev, hidx]
  omega

/-! ### Where the walk goes and which labels it leaves

The walk takes the first selected arc of each city and stays where there is none, so the city it is
at decides where it goes on, and once it comes to a city again it repeats itself.  The label of a
city counts the steps up to its last visit; the labels number all cities exactly if the walk visits
every city (`walk_visits`). -/

variable {c d : Fin n}

/-- The walk may take an arc: its entry is one. -/
def Open (x : List α) (c d : Fin n) : Prop := ∃ v, entry x c d = .ok v ∧ (v == 1) = true

theorem selected_iff (h : c ≠ d) : selected x c d = true ↔ Open x c d := by
  rw [selected, Open, entry_of_ne h]
  cases x[index c d]? with
  | none => simp
  | some v => simp

/-- The first of all cities with a property is the least. -/
theorem isLeast_of_find? {p : Fin n → Bool} (h : (List.finRange n).find? p = some d) :
    IsLeast {j | p j = true} d := by
  obtain ⟨hd, pre, post, hsplit, hpre⟩ := List.find?_eq_some_iff_append.mp h
  have hsorted : (pre ++ d :: post).Pairwise (· < ·) := hsplit ▸ List.pairwise_lt_finRange n
  refine ⟨hd, fun j hj => ?_⟩
  have hmem : j ∈ pre ++ d :: post := hsplit ▸ List.mem_finRange j
  rcases List.mem_append.mp hmem with hbefore | hafter
  · have hnot : p j = false := by simpa using hpre j hbefore
    exact absurd hj (by simp [hnot])
  · rcases List.mem_cons.mp hafter with rfl | hpost
    · exact le_rfl
    · exact ((List.pairwise_cons.mp (List.pairwise_append.mp hsorted).2.1).1 j hpost).le

theorem successor_cases (x : List α) (c : Fin n) :
    IsLeast {j | j ≠ c ∧ Open x c j} (successor x c) ∨
      successor x c = c ∧ ∀ j, j ≠ c → ¬ Open x c j := by
  have htaken : ∀ j, (decide (j ≠ c) && selected x c j) = true ↔ j ≠ c ∧ Open x c j := by
    intro j
    rw [Bool.and_eq_true, decide_eq_true_eq]
    exact and_congr_right fun hj => selected_iff hj.symm
  rw [successor]
  cases hfind : (List.finRange n).find? fun j => decide (j ≠ c) && selected x c j with
  | none =>
    refine .inr ⟨rfl, fun j hj hopen => ?_⟩
    exact List.find?_eq_none.mp hfind j (List.mem_finRange j) ((htaken j).mpr ⟨hj, hopen⟩)
  | some d =>
    have hleast := isLeast_of_find? hfind
    simp only [htaken] at hleast
    exact .inl hleast

/-- A walk that comes to a city again goes on as it did before. -/
theorem getElem?_iterate_add {f : Fin n → Fin n} {a : Fin n} {i j k : ℕ} (hij : i < j)
    (hk : j + k < n) (h : (List.iterate f a n)[i]? = (List.iterate f a n)[j]?) :
    (List.iterate f a n)[i + k]? = (List.iterate f a n)[j + k]? := by
  have hvisit : ∀ m < n, (List.iterate f a n)[m]? = some (f^[m] a) := fun m hm => by
    simp [hm]
  rw [hvisit i (by omega), hvisit j (by omega), Option.some.injEq] at h
  rw [hvisit _ (by omega), hvisit _ hk, Nat.add_comm i, Nat.add_comm j,
    Function.iterate_add_apply, Function.iterate_add_apply, h]

/-! ### Labels -/

theorem labelsOf_of_last {k : ℕ} (hk : visits[k]? = some c)
    (hlast : ∀ m, visits[m]? = some c → m ≤ k) : (labelsOf visits).get c = k + 1 := by
  -- The last visit decides, so the visits are read from their end.
  induction visits using List.reverseRecOn with
  | nil => simp at hk
  | append_singleton visits d ih =>
    have hlt : k < (visits ++ [d]).length := (List.getElem?_eq_some_iff.mp hk).1
    rw [List.length_append, List.length_singleton] at hlt
    rw [labelsOf_append]
    by_cases hd : d = c
    · subst hd
      have hle : visits.length ≤ k := hlast _ (by simp)
      have heq : k = visits.length := by omega
      simp [Vector.get_eq_getElem, heq]
    · have hne : k ≠ visits.length := by
        rintro rfl
        simp [hd] at hk
      have hvisit : visits[k]? = some c := by
        rwa [List.getElem?_append_left (by omega)] at hk
      have hrest : ∀ m, visits[m]? = some c → m ≤ k := fun m hm => by
        have hbefore : m < visits.length := (List.getElem?_eq_some_iff.mp hm).1
        exact hlast m (by rwa [List.getElem?_append_left hbefore])
      have hlabel := ih hvisit hrest
      rw [Vector.get_eq_getElem] at hlabel ⊢
      rw [Vector.getElem_set_ne _ _ (Fin.val_ne_of_ne hd), hlabel]

theorem map_labelsOf (h : visits.Nodup) :
    visits.map (labelsOf visits).get = List.range' 1 visits.length := by
  refine List.ext_getElem (by simp) fun k hk _ => ?_
  rw [List.length_map] at hk
  rw [List.getElem_map, labelsOf_getElem h hk, List.getElem_range', Nat.one_mul, Nat.add_comm]

/-- The labels of as many visits as there are cities number all cities exactly if every city is
visited. -/
theorem labelsOf_perm_iff (hlen : visits.length = n) :
    (labelsOf visits).toList.Perm (List.range' 1 n) ↔ ∀ c, c ∈ visits := by
  constructor
  · intro hperm c
    by_contra hc
    have hzero : 0 ∈ (labelsOf visits).toList := by
      rw [← labelsOf_of_not_mem hc, Vector.get_eq_getElem]
      exact Vector.mem_toList_iff.mpr (Vector.getElem_mem c.isLt)
    simpa using hperm.mem_iff.mp hzero
  · intro hall
    have hperm := perm_finRange_of_forall_mem hlen hall
    have hlabels : (labelsOf visits).toList = (List.finRange n).map (labelsOf visits).get := by
      rw [← List.ofFn_eq_map, ← Vector.toList_ofFn]
      exact congrArg Vector.toList Vector.ofFn_getElem.symm
    have hmap := map_labelsOf (nodup_of_perm_finRange hperm)
    rw [hlen] at hmap
    rw [hlabels, ← hmap]
    exact (hperm.map _).symm

/-! ### The walk -/

/-- The walk along a long enough row visits the iterates of `successor`, which goes on to the least
city that an open arc leads to and otherwise stays.  Once the walk comes to a city again it repeats
itself.  A city has the count of steps up to its last visit as its label, and zero without a visit;
the labels are the numbers from one to the count of cities exactly if every city is visited. -/
theorem walk_visits (hn : 0 < n) (hx : n * (n - 1) ≤ x.length) :
    ∃ (visits : List (Fin n)) (u : Vector ℕ n),
      walk n x = .ok visits ∧ labels n x = .ok u ∧ visits.length = n ∧
      (∀ k < n, visits[k]? = some ((successor x)^[k] ⟨0, hn⟩)) ∧
      (∀ c : Fin n, IsLeast {j | j ≠ c ∧ Open x c j} (successor x c) ∨
        successor x c = c ∧ ∀ j, j ≠ c → ¬ Open x c j) ∧
      (∀ i j, i < j → visits[i]? = visits[j]? →
        ∀ k, j + k < n → visits[i + k]? = visits[j + k]?) ∧
      (∀ c k, IsGreatest {m | visits[m]? = some c} k → u.get c = k + 1) ∧
      (∀ c, c ∉ visits → u.get c = 0) ∧
      (u.toList.Perm (List.range' 1 n) ↔ ∀ c, c ∈ visits) := by
  have hwalk := walk_eq hx hn
  have hlabels := labels_of_walk hwalk
  have hlength : (List.iterate (successor x) ⟨0, hn⟩ n).length = n := List.length_iterate ..
  refine ⟨_, _, hwalk, hlabels, hlength, fun k hk => ?_, successor_cases x, ?_,
    fun c k h => labelsOf_of_last h.1 h.2, fun c => labelsOf_of_not_mem, labelsOf_perm_iff hlength⟩
  · simp [hk]
  · exact fun i j hij h k hk => getElem?_iterate_add hij hk h

/-- A row through four cities: two arcs leave the first one, none is left to the second and the
fourth, and one entry is no number. -/
def forkedRow : List Float := [Double.undefined, 1, 1, 0, 2, 0, 1, 0, 0, 0, 0, -1]

theorem walk_visits_forked : 0 < 4 ∧ 4 * (4 - 1) ≤ forkedRow.length ∧
    walk 4 forkedRow = .ok [0, 2, 0, 2] ∧
    ∃ u : Vector ℕ 4, labels 4 forkedRow = .ok u ∧ u.get 0 = 3 ∧ u.get 1 = 0 ∧
      ¬ u.toList.Perm (List.range' 1 4) := by
  have hlen : 4 * (4 - 1) ≤ forkedRow.length := le_rfl
  obtain ⟨visits, u, hwalk, hlabels, hlength, hvisits, -, -, hlast, hnever, hall⟩ :=
    walk_visits (n := 4) (x := forkedRow) (by decide) hlen
  have hforth : successor forkedRow 0 = (2 : Fin 4) := by decide +kernel
  have hback : successor forkedRow 2 = (0 : Fin 4) := by decide +kernel
  obtain rfl : visits = [0, 2, 0, 2] := by
    refine List.ext_getElem? fun k => ?_
    match k with
    | 0 => exact hvisits 0 (by decide)
    | 1 => exact (hvisits 1 (by decide)).trans (congrArg some hforth)
    | 2 => exact (hvisits 2 (by decide)).trans (by simp [hforth, hback])
    | 3 => exact (hvisits 3 (by decide)).trans (by simp [hforth, hback])
    | k + 4 => rw [List.getElem?_eq_none (by omega), List.getElem?_eq_none (by simp)]
  have hgreatest : IsGreatest {m : ℕ | ([0, 2, 0, 2] : List (Fin 4))[m]? = some 0} 2 := by
    refine ⟨rfl, fun m hm => ?_⟩
    have hlt := (List.getElem?_eq_some_iff.mp hm).1
    by_contra hgt
    obtain rfl : m = 3 := by simp at hlt; omega
    exact absurd hm (by decide)
  exact ⟨by decide, hlen, hwalk, u, hlabels, hlast 0 2 hgreatest, hnever 1 (by decide),
    fun hperm => absurd (hall.mp hperm 1) (by decide)⟩

end CityTour.Arc
