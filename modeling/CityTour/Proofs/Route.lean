import Mathlib
import CityTour.Network
import CityTour.Proofs.Sequence
import CityTour.Proofs.Tour

/-! Routes of tours, and the routes that stray from the cities.  A tour whose entries all name
cities, counted from either end, has the route of a closed walk `c` (`exists_tourOf`).
`Lookup.fault` is what goes wrong with any other entry once it is used as an index. -/

namespace CityTour

variable {n : ℕ} {tour : List ℤ}

/-- Every entry of a tour names one of `n` cities, from the first on or from the last back. -/
def NamesCities (n : ℕ) (tour : List ℤ) : Prop := ∀ i ∈ tour, -(n : ℤ) ≤ i ∧ i < n

instance (n : ℕ) (tour : List ℤ) : Decidable (NamesCities n tour) :=
  inferInstanceAs (Decidable (∀ i ∈ tour, _))

theorem exists_cityAt?_eq {i : ℤ} (h : -(n : ℤ) ≤ i ∧ i < n) :
    ∃ c : Fin n, cityAt? n i = some c := by
  unfold cityAt?
  split
  · exact ⟨_, rfl⟩
  · rw [dif_pos (by omega)]
    exact ⟨_, rfl⟩

theorem cityAt?_eq_none {i : ℤ} (h : ¬ (-(n : ℤ) ≤ i ∧ i < n)) : cityAt? n i = none := by
  unfold cityAt?
  rw [dif_neg (by omega), dif_neg (by omega)]

theorem namesCities_numbers (visits : List (Fin n)) : NamesCities n (numbers visits) := by
  intro i hi
  obtain ⟨c, -, rfl⟩ := List.mem_map.mp hi
  have hc := c.isLt
  constructor
  · show -(n : ℤ) ≤ (c : ℕ)
    omega
  · exact Int.ofNat_lt.mpr hc

theorem IsTour.namesCities (h : IsTour n tour) : NamesCities n tour := by
  obtain ⟨visits, -, rfl⟩ := isTour_iff.mp h
  exact namesCities_numbers visits

theorem length_ofTour (n : ℕ) (tour : List ℤ) : (Route.ofTour n tour).length = tour.length :=
  List.length_map _

theorem ofTour_tourOf (c : Fin n → Fin n) :
    Route.ofTour n (tourOf c) = (List.ofFn c).map Lookup.city := Route.ofTour_numbers _

theorem Lookup.ofInt_eq_city_iff {i : ℤ} {c : Fin n} :
    Lookup.ofInt n i = .city c ↔ cityAt? n i = some c := by
  unfold Lookup.ofInt
  cases cityAt? n i with
  | some d => simp
  | none =>
    dsimp only
    split
    · simp
    · simp

/-- A tour has the route of the closed walk along the cities that its entries name. -/
theorem ofTour_eq_tourOf_iff (hlen : tour.length = n) {c : Fin n → Fin n} :
    Route.ofTour n tour = Route.ofTour n (tourOf c) ↔
      ∀ k, cityAt? n (tour.get (k.cast hlen.symm)) = some (c k) := by
  rw [ofTour_tourOf, List.ext_get_iff]
  simp only [length_ofTour, hlen, List.length_map, List.length_ofFn, true_and]
  constructor
  · intro h k
    have hentry := h k k.isLt k.isLt
    simp only [Route.ofTour, List.get_eq_getElem, List.getElem_map, List.getElem_ofFn] at hentry
    exact Lookup.ofInt_eq_city_iff.mp hentry
  · intro h k hk _
    have hentry := Lookup.ofInt_eq_city_iff.mpr (h ⟨k, hk⟩)
    simpa [Route.ofTour] using hentry

/-- As many entries as there are cities, all of which name cities, are a closed walk. -/
theorem exists_tourOf (hlen : tour.length = n) (h : NamesCities n tour) :
    ∃ c : Fin n → Fin n, Route.ofTour n tour = Route.ofTour n (tourOf c) := by
  have hcity : ∀ k : Fin n, ∃ c : Fin n, cityAt? n (tour.get (k.cast hlen.symm)) = some c :=
    fun k => exists_cityAt?_eq (h _ (List.get_mem _ _))
  choose c hc using hcity
  exact ⟨c, (ofTour_eq_tourOf_iff hlen).mpr hc⟩

/-! ### Entries that name no city -/

/-- Whether an integer names none of `n` cities. -/
def strays (n : ℕ) (i : ℤ) : Bool := decide (i < -(n : ℤ) ∨ n ≤ i)

/-- What goes wrong when an entry is used as an index. -/
def Lookup.fault : Lookup n → Option Fault
  | .city _ => none
  | .outside => some .outOfRange
  | .unusable fault => some fault

/-- What goes wrong when an integer that names no city is used as an index: from `2 ^ 63` on it is
too large for a signed word, and from `2 ^ 64` on for any word. -/
def strayFault (i : ℤ) : Fault := if 2 ^ 63 ≤ i ∧ i < 2 ^ 64 then .wideIndex else .outOfRange

theorem fitsIndex_iff {i : ℤ} : Grid.fitsIndex i = true ↔ -2 ^ 63 ≤ i ∧ i < 2 ^ 63 := by
  simp only [Grid.fitsIndex, Bool.and_eq_true, decide_eq_true_eq]
  rfl

theorem strays_eq_true {i : ℤ} : strays n i = true ↔ ¬ (-(n : ℤ) ≤ i ∧ i < n) := by
  rw [strays, decide_eq_true_eq]
  omega

theorem strays_eq_false {i : ℤ} : strays n i = false ↔ -(n : ℤ) ≤ i ∧ i < n := by
  rw [← Bool.not_eq_true, strays_eq_true, not_not]

theorem Lookup.fault_ofInt (n : ℕ) (i : ℤ) :
    (Lookup.ofInt n i).fault = if strays n i then some (strayFault i) else none := by
  cases h : strays n i with
  | false =>
    obtain ⟨c, hc⟩ := exists_cityAt?_eq (strays_eq_false.mp h)
    rw [if_neg Bool.false_ne_true, Lookup.ofInt, hc]
    rfl
  | true =>
    have hstray := strays_eq_true.mp h
    rw [if_pos rfl, Lookup.ofInt, cityAt?_eq_none hstray]
    unfold strayFault
    by_cases hfits : Grid.fitsIndex i = true
    · have hlt := (fitsIndex_iff.mp hfits).2
      simp only [hfits, if_true]
      rw [if_neg (by omega)]
      rfl
    · simp only [hfits]
      have hwide : (0 ≤ i ∧ i < 2 * Grid.indexBound) ↔ 2 ^ 63 ≤ i ∧ i < 2 ^ 64 := by
        rw [fitsIndex_iff] at hfits
        show (0 ≤ i ∧ i < 2 * 2 ^ 63) ↔ _
        omega
      show some (Grid.indexFault i) = _
      rw [Grid.indexFault, if_congr hwide rfl rfl]

theorem Lookup.exists_city_of_fault {y : Lookup n} (h : y.fault = none) :
    ∃ c, y = .city c := by
  cases y with
  | city c => exact ⟨c, rfl⟩
  | outside => cases h
  | unusable fault => cases h

/-! ### Routes that stray from the cities

The first entry of a route that names no city is the first one that anything trips over: the scan
reads the positions in order and either ends before it gets there or fails there, and the closed
walk, which reads them all, fails there. -/

namespace Window

variable {α : Type} [Scalar α] {b : ℕ} {fault : Fault} {value length : ℕ → Except Fault α}

/-- A walk that can be read up to position `b`; the edge into that position cannot. -/
structure StraysAt (b : ℕ) (fault : Fault) (value length : ℕ → Except Fault α) : Prop where
  value_ok : ∀ k < b, ∃ a, value k = .ok a
  length_ok : ∀ k, k + 1 < b → ∃ a, length k = .ok a
  length_error : ∀ k, k + 1 = b → length k = .error fault

theorem scanFrom_of_straysAt (h : StraysAt b fault value length) (l k : ℕ) (hl : l < n)
    (hk : k < n) (total saved : α) (phase : Phase) (hb : l + k < b) :
    scanFrom n value length l k hl hk total saved phase = .error fault ∨
      ∃ ws, scanFrom n value length l k hl hk total saved phase = .ok ws := by
  -- The right end stays before `b`: the scan reads the edge into `b` first, and that fails.
  induction l, k, hl, hk, total, saved, phase using scanFrom.induct with
  | case1 l k hl hk total saved ihs ihg =>
    rw [scanFrom]
    by_cases hstray : l + k + 1 = b
    · left
      rw [h.length_error _ hstray]
      rfl
    obtain ⟨edge, hedge⟩ := h.length_ok (l + k) (by omega)
    obtain ⟨worth, hworth⟩ := h.value_ok (l + k + 1) (by omega)
    rw [hedge, ok_bind, hworth, ok_bind]
    by_cases hclosed : k + 1 = n
    · rw [dif_pos hclosed]
      exact .inr ⟨[], rfl⟩
    rw [dif_neg hclosed]
    by_cases hneg : saved - edge < 0
    · rw [if_pos hneg]
      exact ihs edge worth hclosed (by omega)
    · rw [if_neg hneg]
      rcases ihg edge worth hclosed (by omega) with hfault | ⟨ws, hws⟩
      · left
        rw [hfault]
        rfl
      · right
        rw [hws]
        exact ⟨_, rfl⟩
  | case2 l hl total saved hk =>
    rw [scanFrom]
    exact .inr ⟨[], by simp; rfl⟩
  | case3 l k hl hk total saved hk0 ihg ihs =>
    obtain ⟨edge, hedge⟩ := h.length_ok l (by omega)
    obtain ⟨worth, hworth⟩ := h.value_ok l (by omega)
    rw [scanFrom, dif_neg hk0, hedge, ok_bind, hworth, ok_bind]
    by_cases hpos : 0 < saved + edge
    · rw [if_pos hpos]
      by_cases hlast : l + 1 = n
      · rw [dif_pos hlast]
        exact .inr ⟨_, rfl⟩
      · rw [dif_neg hlast]
        rcases ihg edge worth hlast (by omega) with hfault | ⟨ws, hws⟩
        · left
          rw [hfault]
          rfl
        · right
          rw [hws]
          exact ⟨_, rfl⟩
    · rw [if_neg hpos]
      by_cases hlast : l + 1 = n
      · rw [dif_pos hlast]
        exact .inr ⟨[], rfl⟩
      · rw [dif_neg hlast]
        exact ihs edge worth hlast (by omega)

end Window

/-- The first entry of a route that names no city, and what goes wrong with it. -/
structure Route.StraysAt {n : ℕ} (r : Route n) (b : ℕ) (fault : Fault) : Prop where
  length_eq : r.length = n
  lt_length : b < r.length
  before : ∀ k < b, ∃ c, Network.cityOn r k = .city c
  fault_eq : (Network.cityOn r b).fault = some fault

namespace Network

variable {α : Type} [Scalar α] {b : ℕ} {fault : Fault} (N : Network α n) {r : Route n}

theorem edge_of_fault {y : Lookup n} (i : Fin n) (h : y.fault = some fault) :
    N.edge (.city i) y = .error fault := by
  cases y with
  | city c => cases h
  | outside =>
    cases h
    rfl
  | unusable f =>
    cases h
    rfl

theorem valueOn_of_fault (h : (cityOn r b).fault = some fault) : N.valueOn r b = .error fault := by
  unfold valueOn
  cases hy : cityOn r b with
  | city c =>
    rw [hy] at h
    cases h
  | outside =>
    rw [hy] at h
    cases h
    rfl
  | unusable f =>
    rw [hy] at h
    cases h
    rfl

theorem straysAt_walk (h : r.StraysAt b fault) :
    Window.StraysAt b fault (N.valueOn r) (N.lengthOn r) := by
  constructor
  · intro k hk
    obtain ⟨c, hc⟩ := h.before k hk
    exact ⟨N.value c, by rw [valueOn, hc]⟩
  · intro k hk
    obtain ⟨c, hc⟩ := h.before k (by omega)
    obtain ⟨d, hd⟩ := h.before (k + 1) hk
    exact ⟨N.weight c d, by rw [lengthOn, hc, hd]; rfl⟩
  · rintro k rfl
    obtain ⟨c, hc⟩ := h.before k (Nat.lt_succ_self k)
    rw [lengthOn, hc]
    exact N.edge_of_fault c h.fault_eq

/-- The scan fails at the first entry that names no city, or it ends before it gets there. -/
theorem scan_of_straysAt (h : r.StraysAt b fault) :
    N.scan r = .error fault ∨ 0 < b ∧ ∃ ws, N.scan r = .ok ws := by
  have hn := N.size_pos
  rw [scan, if_pos h.length_eq, Window.scan]
  rcases Nat.eq_zero_or_pos b with rfl | hb
  · left
    rw [N.valueOn_of_fault h.fault_eq]
    rfl
  · obtain ⟨start, hstart⟩ := (N.straysAt_walk h).value_ok 0 hb
    rw [hstart, ok_bind]
    rcases Window.scanFrom_of_straysAt (N.straysAt_walk h) 0 0 hn hn start N.budget .growing hb
      with hfault | ⟨ws, hws⟩
    · left
      rw [hfault]
      rfl
    · right
      rw [hws]
      exact ⟨hb, _, rfl⟩

theorem cityOn_of_lt (hlen : r.length = n) {k : ℕ} (hk : k < r.length) : cityOn r k = r[k] := by
  rw [cityOn, Nat.mod_eq_of_lt (hk.trans_eq hlen), List.getElem?_eq_getElem hk]
  rfl

theorem finRange_split {m k : ℕ} (hk : k < m) : ∃ post : List (Fin m),
    List.finRange m = (List.finRange m).take k ++ ⟨k, hk⟩ :: post := by
  have hlen : k < (List.finRange m).length := by simpa using hk
  refine ⟨(List.finRange m).drop (k + 1), ?_⟩
  have hdrop := List.drop_eq_getElem_cons hlen
  rw [List.getElem_finRange] at hdrop
  conv_lhs => rw [← List.take_append_drop k (List.finRange m), hdrop]
  rfl

/-- The closed walk fails at the first entry that names no city. -/
theorem closedLength_of_straysAt (h : r.StraysAt b fault) (hb : 0 < b) :
    N.closedLength r = .error fault := by
  obtain ⟨k, rfl⟩ := Nat.exists_eq_add_of_lt hb
  rw [Nat.zero_add] at h
  have hlt : k + 1 < r.length := h.lt_length
  have hcity : ∀ (i : ℕ) (hi : i < r.length), i < k + 1 → ∃ c, r[i] = .city c := by
    intro i hi hik
    rw [← cityOn_of_lt h.length_eq]
    exact h.before i hik
  -- The edge into the entry is the first one that fails.
  obtain ⟨post, hsplit⟩ := finRange_split (Nat.lt_of_succ_lt hlt)
  rw [closedLength, closedSum, hsplit]
  apply foldlM_error
  · intro total i hi
    obtain ⟨j, hj, rfl⟩ := List.mem_take_iff_getElem.mp hi
    have hjk : j < k := lt_of_lt_of_le hj (Nat.min_le_left _ _)
    obtain ⟨c, hc⟩ := hcity j (by omega) (by omega)
    obtain ⟨d, hd⟩ := hcity (j + 1) (by omega) (by omega)
    refine ⟨total + N.weight c d, ?_⟩
    simp only [List.getElem_finRange, Fin.getElem_fin, Fin.val_cast, List.get_eq_getElem,
      Nat.mod_eq_of_lt (show j + 1 < r.length by omega), hc, hd]
    rfl
  · intro total
    obtain ⟨c, hc⟩ := hcity k (by omega) (Nat.lt_succ_self k)
    have hfault : r[k + 1].fault = some fault := by
      rw [← cityOn_of_lt h.length_eq]
      simpa using h.fault_eq
    simp only [Fin.getElem_fin, List.get_eq_getElem, Nat.mod_eq_of_lt hlt, hc,
      N.edge_of_fault c hfault]
    rfl

theorem cityOn_ofTour {tour : List ℤ} (hlen : tour.length = n) {k : ℕ} (hk : k < tour.length) :
    cityOn (Route.ofTour n tour) k = Lookup.ofInt n tour[k] := by
  rw [cityOn_of_lt (by rwa [length_ofTour]) (by rwa [length_ofTour])]
  exact List.getElem_map _

end Network

/-- The first entry of a tour that names no city. -/
theorem Route.straysAt_of_find {n : ℕ} {tour : List ℤ} (hlen : tour.length = n) {i : ℤ}
    (h : tour.find? (strays n) = some i) :
    ∃ b, (Route.ofTour n tour).StraysAt b (strayFault i) := by
  obtain ⟨hi, b, hb, hentry, hbefore⟩ := List.find?_eq_some_iff_getElem.mp h
  refine ⟨b, by rwa [length_ofTour], by rwa [length_ofTour], ?_, ?_⟩
  · intro k hk
    rw [Network.cityOn_ofTour hlen (hk.trans hb)]
    apply Lookup.exists_city_of_fault
    have hk := hbefore k hk
    rw [Lookup.fault_ofInt, if_neg (by simpa using hk)]
  · rw [Network.cityOn_ofTour hlen hb, hentry, Lookup.fault_ofInt, if_pos hi]

end CityTour
