import Mathlib
import CityTour.Proofs.Encoding.RoundTrip
import CityTour.Proofs.Number.Place
import CityTour.Proofs.Sequence

/-! Keys that are doubles, with infinities and what is no number among them.  Reading them arranges
the cities by the place of their keys, and cities of one place by number: that is a strict linear
order of the cities, so there is one arrangement in which each city comes before the next.  Writing
that arrangement with the same keys gives every city its key again. -/

namespace CityTour.Encoding

open Scalar Double

variable {n : ℕ} {key key' : Fin n → Float} {visits : List (Fin n)} {i j : Fin n}

/-- The key of a city precedes that of another, or ties with it and the city has the lower
number. -/
def Ahead (key : Fin n → Float) (i j : Fin n) : Prop :=
  Precedes (key i) (key j) ∨ Ties (key i) (key j) ∧ i < j

instance (key : Fin n → Float) : DecidableRel (Ahead key) := fun _ _ =>
  inferInstanceAs (Decidable (_ ∨ _))

/-- Cities stand by the place of their keys and then by number. -/
def standing (key : Fin n → Float) (i : Fin n) : (ℕ ×ₗ ℚ) ×ₗ Fin n := toLex (place (key i), i)

theorem standing_injective (key : Fin n → Float) : Function.Injective (standing key) := fun _ _ h =>
  (Prod.ext_iff.mp (toLex.injective h)).2

theorem ahead_iff : Ahead key i j ↔ standing key i < standing key j := by
  rw [Ahead, precedes_iff, ties_iff, standing, standing, Prod.Lex.toLex_lt_toLex]

instance : Trans (Ahead key) (Ahead key) (Ahead key) where
  trans h h' := ahead_iff.mpr ((ahead_iff.mp h).trans (ahead_iff.mp h'))

theorem Ahead.place_le (h : Ahead key i j) : place (key i) ≤ place (key j) :=
  (Prod.Lex.toLex_lt_toLex'.mp (ahead_iff.mp h)).1

theorem ranksBefore_of_ahead (h : Ahead key i j) :
    ranksBefore (key i, i.val) (key j, j.val) = true := by
  unfold ranksBefore
  rcases h with hprecedes | ⟨hties, hij⟩
  · rw [precedes_iff] at hprecedes
    rw [if_pos (sortsBefore_iff.mpr hprecedes.le),
      if_neg (mt sortsBefore_iff.mp hprecedes.not_ge)]
  · rw [ties_iff] at hties
    rw [if_pos (sortsBefore_iff.mpr hties.le), if_pos (sortsBefore_iff.mpr hties.ge)]
    exact decide_eq_true hij.le

/-- The cities in the order of their standing. -/
def arrangement (key : Fin n → Float) : List (Fin n) :=
  (List.finRange n).mergeSort fun i j => decide (standing key i ≤ standing key j)

theorem arrangement_perm (key : Fin n → Float) : (arrangement key).Perm (List.finRange n) :=
  List.mergeSort_perm ..

theorem arrangement_pairwise (key : Fin n → Float) : (arrangement key).Pairwise (Ahead key) := by
  have hsorted : (arrangement key).Pairwise fun i j => standing key i ≤ standing key j :=
    pairwise_mergeSort_key (standing key) _
  have hnodup : (arrangement key).Pairwise (· ≠ ·) := nodup_of_perm_finRange (arrangement_perm key)
  refine (hsorted.and hnodup).imp fun ⟨hle, hne⟩ => ahead_iff.mpr ?_
  exact lt_of_le_of_ne hle ((standing_injective key).ne hne)

/-- Each city is ahead of the next in one arrangement of the cities alone. -/
theorem isChain_ahead_iff (h : visits.Perm (List.finRange n)) :
    visits.IsChain (Ahead key) ↔ visits = arrangement key := by
  -- The order is transitive, so each city of a chain is ahead of all later ones.
  rw [List.isChain_iff_pairwise]
  refine ⟨fun hvisits => ?_, fun heq => heq ▸ arrangement_pairwise key⟩
  refine (h.trans (arrangement_perm key).symm).eq_of_pairwise ?_ hvisits (arrangement_pairwise key)
  intro i j _ _ hij hji
  exact absurd (ahead_iff.mp hij) (ahead_iff.mp hji).not_gt

theorem decode_eq_arrangement (key : Fin n → Float) :
    randomKeys.decode n (List.ofFn key) = .ok (numbers (arrangement key)) :=
  decode_ofFn (arrangement_perm key) ((arrangement_pairwise key).imp ranksBefore_of_ahead)

theorem arrangement_congr
    (h : ∀ i j, Precedes (key i) (key j) ↔ Precedes (key' i) (key' j)) :
    arrangement key = arrangement key' := by
  -- Keys tie where neither precedes the other.
  have hties : ∀ x y : Float, Ties x y ↔ ¬ Precedes x y ∧ ¬ Precedes y x := by
    intro x y
    rw [precedes_iff, precedes_iff, ties_iff, not_lt, not_lt, and_comm, le_antisymm_iff]
  have hahead : Ahead key = Ahead key' := by
    funext i j
    rw [Ahead, Ahead, hties, hties, h i j, h j i]
  rw [← isChain_ahead_iff (arrangement_perm key), ← hahead,
    isChain_ahead_iff (arrangement_perm key)]

/-! ### Keys of one's own -/

theorem map_place_mergeSort {keys sorted : List Float} (h : keys.Perm sorted)
    (hsorted : (sorted.map place).Pairwise (· ≤ ·)) :
    (keys.mergeSort sortsBefore).map place = sorted.map place := by
  have hperm := ((keys.mergeSort_perm sortsBefore).trans h).map place
  refine hperm.eq_of_pairwise (fun _ _ _ _ => le_antisymm) ?_ hsorted
  rw [List.pairwise_map]
  exact (List.pairwise_mergeSort SortsTotally.trans SortsTotally.total keys).imp sortsBefore_iff.mp

theorem encodeWithKeys_numbers {α : Type} [Scalar α] (h : visits.Perm (List.finRange n))
    {keys : List α} (hlen : keys.length = n) : ∃ key : Fin n → α,
      visits.map key = keys.mergeSort sortsBefore ∧
      randomKeys.encodeWithKeys n (numbers visits) keys = .ok (List.ofFn key) := by
  have hsorted : (keys.mergeSort sortsBefore).length = n := (List.length_mergeSort keys).trans hlen
  obtain ⟨key, hkey⟩ := exists_map_eq h hsorted
  refine ⟨key, hkey, ?_⟩
  rw [← scatter_numbers key h, hkey, encodeWithKeys, checkTour_of_isTour (isTour_numbers_iff.mpr h),
    ok_bind, Int.toNat_natCast]
  generalize keys.mergeSort sortsBefore = sorted at hsorted
  match sorted with
  | [] => exact if_pos hsorted
  | [key] =>
    -- A single key goes to every city, of which there is one.
    have hreplicate : List.replicate n key = [key] := by
      rw [← hsorted]
      rfl
    exact congrArg (Except.ok ∘ scatter n (numbers visits)) hreplicate
  | first :: second :: later => exact if_pos hsorted

theorem exists_encode_arrangement (key : Fin n → Float) : ∃ key' : Fin n → Float,
    randomKeys.encodeWithKeys n (numbers (arrangement key)) (List.ofFn key) =
      .ok (List.ofFn key') ∧ ∀ i, Ties (key' i) (key i) := by
  have hperm := arrangement_perm key
  obtain ⟨key', hkeys, hencode⟩ := encodeWithKeys_numbers hperm (List.length_ofFn (f := key))
  refine ⟨key', hencode, ?_⟩
  have hkey : (List.ofFn key).Perm ((arrangement key).map key) := by
    rw [List.ofFn_eq_map]
    exact (hperm.map key).symm
  -- Both lists are sorted and hold the same keys, so they have the same places in the same order.
  have hplaces : ((arrangement key).map key').map place =
      ((arrangement key).map key).map place := by
    rw [hkeys]
    refine map_place_mergeSort hkey ?_
    rw [List.pairwise_map, List.pairwise_map]
    exact (arrangement_pairwise key).imp Ahead.place_le
  rw [List.map_map, List.map_map, List.map_inj_left] at hplaces
  intro i
  rw [ties_iff]
  exact hplaces i (mem_of_perm_finRange hperm i)

theorem toList_eq_ofFn {α : Type} (x : Vector α n) : x.toList = List.ofFn x.get :=
  List.ext_getElem (by simp) fun k _ _ => by simp [Vector.get]

/-- Reading keys sorts the cities by them, and cities whose keys tie by number: of all arrangements
the tour alone has each city ahead of the next, and keys of the same weak order give the same tour.
Writing the tour with the keys it was read from gives every city its key, as far as sorting tells
keys apart. -/
theorem decode_arranges (n : ℕ) (x : Vector Float n) : ∃ tour,
    randomKeys.decode n x.toList = .ok tour ∧ IsTour n tour ∧
    (∀ visits : List (Fin n), visits.Perm (List.finRange n) →
      (visits.IsChain (Ahead x.get) ↔ numbers visits = tour)) ∧
    (∀ y : Vector Float n, (∀ i j, Precedes (x.get i) (x.get j) ↔ Precedes (y.get i) (y.get j)) →
      randomKeys.decode n y.toList = .ok tour) ∧
    ∃ z : Vector Float n, randomKeys.encodeWithKeys n tour x.toList = .ok z.toList ∧
      ∀ i, Ties (z.get i) (x.get i) := by
  have hdecode : ∀ y : Vector Float n,
      randomKeys.decode n y.toList = .ok (numbers (arrangement y.get)) := by
    intro y
    rw [toList_eq_ofFn, decode_eq_arrangement]
  have hperm := arrangement_perm x.get
  refine ⟨numbers (arrangement x.get), hdecode x, isTour_numbers_iff.mpr hperm, ?_, ?_, ?_⟩
  · intro visits hvisits
    rw [isChain_ahead_iff hvisits, numbers, numbers,
      (List.map_injective_iff.mpr number_injective).eq_iff]
  · intro y hy
    rw [hdecode, arrangement_congr hy]
  · obtain ⟨key, hencode, hties⟩ := exists_encode_arrangement x.get
    refine ⟨Vector.ofFn key, ?_, fun i => ?_⟩
    · rw [toList_eq_ofFn, hencode, Vector.toList_ofFn]
    · have hget : (Vector.ofFn key).get i = key i := Vector.getElem_ofFn i.isLt
      rw [hget]
      exact hties i

/-- Four keys, one of them undefined and two of them zeros of different signs. -/
def zeroKeys : Vector Float 4 := #v[1, Double.undefined, 0, -0]

/-- Four keys, of which only one is finite. -/
def infiniteKeys : Vector Float 4 :=
  #v[0, Double.infinity false, Double.infinity true, Double.infinity true]

/-- Keys that are undefined come last, as infinite ones do, and zeros tie as equal infinities do. -/
theorem decode_arranges_undefined :
    [2, 3, 0, 1].Perm (List.finRange 4) ∧ [2, 3, 0, 1].IsChain (Ahead zeroKeys.get) ∧
    (∀ i j, Precedes (zeroKeys.get i) (zeroKeys.get j) ↔
      Precedes (infiniteKeys.get i) (infiniteKeys.get j)) ∧
    randomKeys.decode 4 zeroKeys.toList = .ok [2, 3, 0, 1] ∧
    randomKeys.decode 4 infiniteKeys.toList = .ok [2, 3, 0, 1] := by
  have hperm : [2, 3, 0, 1].Perm (List.finRange 4) := by decide
  have hchain : [2, 3, 0, 1].IsChain (Ahead zeroKeys.get) := by
    simp only [List.isChain_cons_cons, List.isChain_singleton]
    decide +kernel
  have hsame : ∀ i j, Precedes (zeroKeys.get i) (zeroKeys.get j) ↔
      Precedes (infiniteKeys.get i) (infiniteKeys.get j) := by
    decide +kernel
  obtain ⟨tour, hdecode, -, hunique, hcongr, -⟩ := decode_arranges 4 zeroKeys
  obtain rfl : numbers [2, 3, 0, 1] = tour := (hunique [2, 3, 0, 1] hperm).mp hchain
  exact ⟨hperm, hchain, hsame, hdecode, hcongr infiniteKeys hsame⟩

end CityTour.Encoding
