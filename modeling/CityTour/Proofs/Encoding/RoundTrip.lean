import Mathlib
import CityTour.Encoding
import CityTour.Proofs.Arc.Circuit
import CityTour.Proofs.Number.Counting
import CityTour.Proofs.Number.Place
import CityTour.Proofs.Scalar
import CityTour.Proofs.Sequence
import CityTour.Proofs.Tour

/-! What the encodings write and read back, and the keys that sort cities into a tour.  `scatter`
gives every city of a tour its key, and `sortedPlaces` finds the one arrangement of the cities in
which their keys are in order, tied keys by the number of the city. -/

namespace CityTour.Encoding

open Scalar

section Keys

variable {α : Type} {n : ℕ} {visits : List (Fin n)} (key : Fin n → α)

theorem getElem?_foldl_set (visits : List (Fin n)) {x : List α} (hx : x.length = n) (j : Fin n) :
    (visits.foldl (fun x i => x.set i (key i)) x)[j.val]? =
      if j ∈ visits then some (key j) else x[j.val]? := by
  induction visits generalizing x with
  | nil => simp
  | cons i visits ih =>
    rw [List.foldl_cons, ih (by simpa using hx)]
    by_cases hj : j = i
    · subst hj
      simp [hx]
    · have hne : i.val ≠ j.val := fun h => hj (Fin.ext h.symm)
      simp [hj, List.getElem?_set_ne hne]

theorem length_foldl_set (visits : List (Fin n)) (x : List α) :
    (visits.foldl (fun x i => x.set i (key i)) x).length = x.length := by
  induction visits generalizing x with
  | nil => rfl
  | cons i visits ih => rw [List.foldl_cons, ih, List.length_set]

/-- Any keys, one for each place of a tour, are the keys of its cities. -/
theorem exists_map_eq (h : visits.Perm (List.finRange n)) {keys : List α} (hlen : keys.length = n) :
    ∃ key : Fin n → α, visits.map key = keys := by
  have hlen' : visits.length = keys.length := (length_of_perm_finRange h).trans hlen.symm
  have hidx : ∀ i, visits.idxOf i < keys.length := fun i =>
    (List.idxOf_lt_length_iff.mpr (mem_of_perm_finRange h i)).trans_eq hlen'
  refine ⟨fun i => keys.get ⟨visits.idxOf i, hidx i⟩, ?_⟩
  refine List.ext_getElem (by simp [hlen']) fun k hk hk' => ?_
  simp [(nodup_of_perm_finRange h).idxOf_getElem]

variable [Scalar α]

/-- Keys written in the order of a tour are the keys in the order of the cities. -/
theorem scatter_numbers (h : visits.Perm (List.finRange n)) :
    scatter n (numbers visits) (visits.map key) = List.ofFn key := by
  have hfold : scatter n (numbers visits) (visits.map key) =
      visits.foldl (fun x i => x.set i (key i)) (List.replicate n 0) := by
    rw [scatter, map_cityAt?_numbers, List.zip_map', List.foldl_map]
  have hlen : (List.replicate n (0 : α)).length = n := List.length_replicate
  rw [hfold]
  refine List.ext_getElem? fun m => ?_
  by_cases hm : m < n
  · have hmem := mem_of_perm_finRange h ⟨m, hm⟩
    rw [getElem?_foldl_set key visits hlen ⟨m, hm⟩, if_pos hmem, List.getElem?_ofFn, dif_pos hm]
  · rw [List.getElem?_eq_none (by rw [length_foldl_set, hlen]; omega),
      List.getElem?_eq_none (by simpa using hm)]

/-- Even keys, in the order of a tour: every city has its place in the tour over the count of
cities. -/
theorem evenKeys_eq_map (h : visits.Perm (List.finRange n)) : (evenKeys n : List α) =
    visits.map fun i => ofInt (visits.idxOf i : ℕ) / ofInt n := by
  have hlen := length_of_perm_finRange h
  refine List.ext_getElem (by simp [evenKeys, hlen]) fun k hk hk' => ?_
  rw [List.getElem_map, (nodup_of_perm_finRange h).idxOf_getElem]
  simp [evenKeys]

/-! ### The arrangement by keys -/

/-- Sorting arranges the places of the keys, whatever the keys are. -/
theorem sortedPlaces_perm (keys : List α) :
    (sortedPlaces keys).Perm (List.range keys.length) := by
  have hsort := (keys.zipIdx.mergeSort_perm ranksBefore).map (·.2)
  rwa [List.zipIdx_map_snd, ← List.range_eq_range'] at hsort

/-- Two numbered keys that come before each other have the same number. -/
theorem ranksBefore_antisymm {a b : α × ℕ} (hab : ranksBefore a b) (hba : ranksBefore b a) :
    a.2 = b.2 := by
  grind [ranksBefore]

variable {key} [SortsTotally α]

/-- Sorting the places of the keys gives the arrangement of the cities in which the keys are in
order. -/
theorem sortedPlaces_ofFn (h : visits.Perm (List.finRange n))
    (hsorted : visits.Pairwise fun i j => ranksBefore (key i, i.val) (key j, j.val)) :
    sortedPlaces (List.ofFn key) = visits.map (·.val) := by
  have hzip : (List.ofFn key).zipIdx = (List.finRange n).map fun i => (key i, i.val) :=
    List.ext_getElem (by simp) (by simp)
  have hperm : ((List.ofFn key).zipIdx).Perm (visits.map fun i => (key i, i.val)) :=
    hzip ▸ (h.map _).symm
  have hsort : (List.ofFn key).zipIdx.mergeSort ranksBefore =
      visits.map fun i => (key i, i.val) := by
    refine mergeSort_eq_of_perm ?_ ?_ ?_ (List.pairwise_map.mpr hsorted) hperm
    · exact List.zipIdxLE_trans SortsTotally.trans
    · exact List.zipIdxLE_total SortsTotally.total
    · intro a ha b hb hab hba
      obtain ⟨i, -, rfl⟩ := List.mem_map.mp ha
      obtain ⟨j, -, rfl⟩ := List.mem_map.mp hb
      rw [Fin.ext (ranksBefore_antisymm hab hba)]
  rw [sortedPlaces, hsort, List.map_map]
  rfl

end Keys

/-! ### Tours written as chromosomes and read back, in any numbers that count

Every encoding accepts exactly the lists that hold each city once.  What it writes for them has the
declared length, and reading it gives the tour; only the arcs forget where the tour starts, so they
are read from the first city on. -/

variable {α : Type} {m n : ℕ} {tour : List ℤ} {visits : List (Fin n)}

theorem checkTour_of_isTour (h : IsTour n tour) : checkTour n tour = .ok () := by
  rw [checkTour, if_neg (by simp [h.length_eq]), if_pos (visitsAll_iff.mpr h)]

theorem checkTour_of_not_isTour (h : ¬ IsTour n tour) : checkTour n tour =
    refuse (if tour.length = n then .notPermutation n else .tourLength) := by
  rw [checkTour]
  by_cases hlen : tour.length = n
  · rw [if_neg (by simp [hlen]), if_neg (mt visitsAll_iff.mp h), if_pos hlen]
  · rw [if_pos (by exact_mod_cast hlen), if_neg hlen]

theorem idxOf_numbers (visits : List (Fin n)) (i : Fin n) :
    (numbers visits).idxOf ((i : ℕ) : ℤ) = visits.idxOf i := by
  induction visits with
  | nil => rfl
  | cons j visits ih =>
    rw [numbers] at ih
    rw [numbers, List.map_cons, List.idxOf_cons, List.idxOf_cons, ih]
    simp [Fin.ext_iff, beq_eq_decide]

theorem dimension_full (n : ℕ) : full.dimension n = ((n * (n - 1) : ℕ) : ℤ) := by
  cases n with
  | zero => rfl
  | succ n => simp [dimension]

theorem checkSize_of_length {e : Encoding} {x : List α}
    (h : x.length = e.dimension n) : e.checkSize n x = .ok () := if_pos h

@[simp] theorem size_natCast (n : ℕ) : size n = .ok n := by
  rw [size, if_neg (by omega), Int.toNat_natCast]

variable [Scalar α]

/-- Arcs are read as the cities of their walk. -/
theorem decode_of_walk {x : List α} (hx : x.length = n * (n - 1))
    (h : Arc.walk n x = .ok visits) : full.decode n x = .ok (numbers visits) := by
  rw [decode, checkSize_of_length (by rw [hx, dimension_full]), size_natCast]
  show (Arc.walk n x >>= fun visits => .ok (numbers visits)) = _
  rw [h]
  rfl

/-- The arcs of a tour are read from the first city on. -/
theorem decode_arcsOf [UnitsApart α] (h : visits.Perm (List.finRange n)) :
    full.decode n (arcsOf n (numbers visits) : List α) =
      .ok ((numbers visits).rotate ((numbers visits).idxOf 0)) := by
  have hlen := Arc.length_arcsOf (α := α) visits
  by_cases hn : 0 < n
  · have hzero : (numbers visits).idxOf 0 = visits.idxOf ⟨0, hn⟩ :=
      idxOf_numbers visits ⟨0, hn⟩
    rw [decode_of_walk hlen (Arc.walk_arcsOf h hn), hzero, numbers, List.map_rotate]
    rfl
  · obtain rfl : n = 0 := by omega
    have hnil : visits = [] := List.eq_nil_of_length_eq_zero (length_of_perm_finRange h)
    rw [hnil]
    rfl

/-- Keys are read as the arrangement of the cities in which they are in order. -/
theorem decode_ofFn [SortsTotally α] {key : Fin n → α}
    (h : visits.Perm (List.finRange n))
    (hsorted : visits.Pairwise fun i j => ranksBefore (key i, i.val) (key j, j.val)) :
    randomKeys.decode n (List.ofFn key) = .ok (numbers visits) := by
  rw [decode, checkSize_of_length (by simp [dimension])]
  show Except.ok ((sortedPlaces _).map Int.ofNat) = _
  rw [sortedPlaces_ofFn h hsorted, List.map_map]
  rfl

/-- Keys of which the first comes before the second, and not the other way, are in sorting order. -/
theorem ranksBefore_of_sortsBefore {a b : α × ℕ} (hab : sortsBefore a.1 b.1 = true)
    (hba : sortsBefore b.1 a.1 = false) : ranksBefore a b = true := by
  rw [ranksBefore, hab, hba]
  rfl

/-- The keys of a tour sort its cities into their order. -/
theorem decode_scatter [SortsTotally α] [SortsFractions α m]
    (h : visits.Perm (List.finRange n)) (hm : n < m) :
    randomKeys.decode n (scatter n (numbers visits) (evenKeys n) : List α) =
      .ok (numbers visits) := by
  have hnodup := nodup_of_perm_finRange h
  have hlen := length_of_perm_finRange h
  have hsorted : visits.Pairwise fun i j => ranksBefore
      ((ofInt (visits.idxOf i : ℕ) / ofInt n : α), i.val)
      (ofInt (visits.idxOf j : ℕ) / ofInt n, j.val) := by
    rw [List.pairwise_iff_getElem]
    intro a b ha hb hab
    rw [hnodup.idxOf_getElem, hnodup.idxOf_getElem]
    rw [hlen] at ha hb
    refine ranksBefore_of_sortsBefore ?_ (Bool.eq_false_iff.mpr ?_)
    · exact (SortsFractions.fraction_sorts a b n ha hb hm).mpr hab.le
    · exact mt (SortsFractions.fraction_sorts b a n hb ha hm).mp hab.not_ge
  rw [evenKeys_eq_map h, scatter_numbers _ h]
  exact decode_ofFn h hsorted

theorem decode_ofInt [CountsTo α m] (tour : List ℤ) (hm : ∀ c ∈ tour, |c| ≤ m) :
    cities.decode n (tour.map ofInt : List α) = .ok tour := by
  have htrunc : ∀ c ∈ tour, truncate (ofInt c : α) = .ok (id c) := fun c hc =>
    CountsTo.truncate_ofInt c (hm c hc)
  rw [decode, List.mapM_map]
  exact (mapM_ok htrunc).trans (congrArg Except.ok (List.map_id tour))

/-- The cities of a tour are among the integers up to their count. -/
theorem abs_le_of_mem_numbers (hm : n ≤ m) {c : ℤ} (hc : c ∈ numbers visits) : |c| ≤ m := by
  obtain ⟨i, -, rfl⟩ := List.mem_map.mp hc
  rw [Nat.abs_cast]
  exact_mod_cast i.isLt.le.trans hm

/-- The tour that is read from the chromosome of a tour: the arcs give it from the first city on. -/
def readBack (e : Encoding) (tour : List ℤ) : List ℤ :=
  match e with
  | full => tour.rotate (tour.idxOf 0)
  | randomKeys | cities => tour

theorem head?_readBack_full (h : IsTour n tour) (hn : 0 < n) :
    (full.readBack tour).head? = some 0 := by
  have hmem : (0 : ℤ) ∈ tour := (List.Perm.mem_iff h).mpr (by simpa using hn)
  have hlt : tour.idxOf 0 < tour.length := List.idxOf_lt_length_iff.mpr hmem
  rw [readBack, List.head?_rotate hlt, List.getElem?_eq_getElem hlt, List.getElem_idxOf]

theorem encode_full (h : visits.Perm (List.finRange n)) :
    full.encode n (numbers visits) = .ok (arcsOf n (numbers visits) : List α) := by
  rw [encode, checkTour_of_isTour (isTour_numbers_iff.mpr h)]
  rfl

/-- The chromosomes of tours are the rows of the arrangements of all cities. -/
theorem exists_encode_full_iff {x : List α} :
    (∃ tour, IsTour n tour ∧ full.encode n tour = .ok x) ↔
      ∃ visits : List (Fin n), visits.Perm (List.finRange n) ∧ arcsOf n (numbers visits) = x := by
  constructor
  · rintro ⟨tour, htour, hencode⟩
    obtain ⟨visits, hperm, rfl⟩ := isTour_iff.mp htour
    exact ⟨visits, hperm, Except.ok.inj ((encode_full hperm).symm.trans hencode)⟩
  · rintro ⟨visits, hperm, rfl⟩
    exact ⟨numbers visits, isTour_numbers_iff.mpr hperm, encode_full hperm⟩

/-- The chromosome of a tour has the declared length and reads as the tour. -/
theorem encode_numbers [SortsTotally α] [SortsFractions α m] (hm : 0 < m) (e : Encoding)
    (hn : e = full ∨ n < m) (h : visits.Perm (List.finRange n)) :
    ∃ x : List α, e.encode n (numbers visits) = .ok x ∧ x.length = e.dimension n ∧
      e.decode n x = .ok (e.readBack (numbers visits)) := by
  have hunits : UnitsApart α := CountsTo.unitsApart m hm
  have hcheck := checkTour_of_isTour (isTour_numbers_iff.mpr h)
  have hlen := length_of_perm_finRange h
  cases e with
  | full =>
    refine ⟨arcsOf n (numbers visits), encode_full h, ?_, decode_arcsOf h⟩
    rw [Arc.length_arcsOf, dimension_full]
  | randomKeys =>
    have hbound := hn.resolve_left nofun
    refine ⟨scatter n (numbers visits) (evenKeys n), ?_, ?_, decode_scatter h hbound⟩
    · rw [encode, hcheck]
      rfl
    · rw [evenKeys_eq_map h, scatter_numbers _ h, List.length_ofFn]
      rfl
  | cities =>
    have hbound := hn.resolve_left nofun
    refine ⟨(numbers visits).map ofInt, ?_, ?_, decode_ofInt (m := m) _ fun c hc =>
      abs_le_of_mem_numbers hbound.le hc⟩
    · rw [encode, hcheck]
      rfl
    · rw [List.length_map, length_numbers, hlen]
      rfl

theorem encode_of_not_isTour (e : Encoding) (h : ¬ IsTour n tour) :
    (e.encode n tour : Except Fault (List α)) =
      refuse (if tour.length = n then .notPermutation n else .tourLength) := by
  show (checkTour n tour >>= fun _ => _) = _
  rw [checkTour_of_not_isTour h]
  rfl

/-- Tours are accepted whatever the numbers are. -/
theorem exists_encode_iff (e : Encoding) :
    (∃ x : List α, e.encode n tour = .ok x) ↔ IsTour n tour := by
  constructor
  · rintro ⟨x, hx⟩
    by_contra h
    simp [e.encode_of_not_isTour h, refuse] at hx
  · intro h
    simp only [encode, checkTour_of_isTour h]
    exact ⟨_, rfl⟩

/-- Every encoding accepts exactly the tours, refuses any other list, and gives back the tours that
it has accepted: from the arcs, for any count of cities, from the first city on, and as they were
where the numbers count beyond the cities.  Rational numbers count up to any `m`, so they give back
every tour, and doubles count up to `2 ^ 53`. -/
theorem encode_round_trip (m : ℕ) [SortsTotally α] [SortsFractions α m] (hm : 0 < m)
    (e : Encoding) (n : ℕ) (tour : List ℤ) :
    ((∃ x : List α, e.encode n tour = .ok x) ↔ IsTour n tour) ∧
    (¬ IsTour n tour → (e.encode n tour : Except Fault (List α)) =
      refuse (if tour.length = n then .notPermutation n else .tourLength)) ∧
    ((e = full ∨ n < m) → ∀ x : List α, e.encode n tour = .ok x →
      x.length = e.dimension n ∧ e.decode n x = .ok (e.readBack tour) ∧
      (e = full → 0 < n → (e.readBack tour).head? = some 0)) := by
  refine ⟨e.exists_encode_iff, e.encode_of_not_isTour, fun hn x hx => ?_⟩
  have h := e.exists_encode_iff.mp ⟨x, hx⟩
  obtain ⟨visits, hperm, rfl⟩ := isTour_iff.mp h
  obtain ⟨y, hy, hlen, hdecode⟩ := encode_numbers (α := α) hm e hn hperm
  obtain rfl : x = y := Except.ok.inj (hx.symm.trans hy)
  refine ⟨hlen, hdecode, ?_⟩
  rintro rfl hpos
  exact head?_readBack_full h hpos

/-- Four cities as arcs in exact arithmetic and as keys in doubles. -/
theorem encode_round_trip_four : (0 < 2 ^ 53 ∧ 4 < 2 ^ 53) ∧
    (∃ x : List ℚ, full.encode 4 [2, 0, 3, 1] = .ok x ∧
      x.length = 12 ∧ full.decode 4 x = .ok [0, 3, 1, 2]) ∧
    ∃ x : List Float, randomKeys.encode 4 [2, 0, 3, 1] = .ok x ∧
      x.length = 4 ∧ randomKeys.decode 4 x = .ok [2, 0, 3, 1] := by
  have htour : IsTour 4 [2, 0, 3, 1] := by decide
  refine ⟨by decide, ?_, ?_⟩
  · obtain ⟨haccepts, -, hback⟩ :=
      encode_round_trip (α := ℚ) 1 (by decide) full 4 [2, 0, 3, 1]
    obtain ⟨x, hx⟩ := haccepts.mpr htour
    obtain ⟨hlen, hdecode, -⟩ := hback (.inl rfl) x hx
    exact ⟨x, hx, Int.ofNat.inj hlen, hdecode⟩
  · obtain ⟨haccepts, -, hback⟩ :=
      encode_round_trip (α := Float) (2 ^ 53) (by decide) randomKeys 4 [2, 0, 3, 1]
    obtain ⟨x, hx⟩ := haccepts.mpr htour
    obtain ⟨hlen, hdecode, -⟩ := hback (.inr (by decide)) x hx
    exact ⟨x, hx, Int.ofNat.inj hlen, hdecode⟩

end CityTour.Encoding
