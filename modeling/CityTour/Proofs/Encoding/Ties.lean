import Mathlib
import CityTour.Proofs.Encoding.Arrange

/-! Tours written with keys of one's own.  The cities of a tour get the keys in sorting order, so
sorting finds the tour again as far as it tells the keys apart.  Along the tour the keys fall into
runs that tie, each ahead of the next; `orderTies` puts the cities of every run in the order of
their numbers, and that is the tour that is read back. -/

namespace CityTour

section Runs

variable {β γ : Type} [LinearOrder γ] {f : β → γ}

/-- Where `f` never falls and differs from each run to the next, it rises from run to run. -/
theorem pairwise_runs {runs : List (List β)}
    (hsame : ∀ r ∈ runs, ∀ a ∈ r, ∀ b ∈ r, f a = f b)
    (hne : runs.IsChain fun r s => ∃ hr hs, f (r.getLast hr) ≠ f (s.head hs))
    (hle : runs.flatten.Pairwise fun a b => f a ≤ f b) :
    runs.Pairwise fun r s => ∀ a ∈ r, ∀ b ∈ s, f a < f b := by
  induction runs with
  | nil => exact .nil
  | cons r rest ih =>
    obtain ⟨hsame_r, hsame_rest⟩ := List.forall_mem_cons.mp hsame
    obtain ⟨-, hle_rest, hle_r⟩ := List.pairwise_append.mp (List.flatten_cons ▸ hle)
    refine .cons ?_ (ih hsame_rest hne.tail hle_rest)
    intro s hs a ha b hb
    cases rest with
    | nil => cases hs
    | cons next later =>
      obtain ⟨⟨hr, hnext, hlast⟩, -⟩ := List.isChain_cons_cons.mp hne
      have hhead : next.head hnext ∈ (next :: later).flatten :=
        List.mem_flatten_of_mem List.mem_cons_self (List.head_mem hnext)
      have hrise : f a < f (next.head hnext) := by
        rw [hsame_r a ha _ (List.getLast_mem hr)]
        exact lt_of_le_of_ne (hle_r _ (List.getLast_mem hr) _ hhead) hlast
      apply hrise.trans_le
      rcases List.mem_cons.mp hs with rfl | hlater
      · exact (hsame_rest s List.mem_cons_self _ (List.head_mem hnext) b hb).le
      · rw [List.flatten_cons, List.pairwise_append] at hle_rest
        exact hle_rest.2.2 _ (List.head_mem hnext) b (List.mem_flatten_of_mem hlater hb)

end Runs

namespace Encoding

open Scalar Double

/-- The stops of a tour, each with its key, in runs of keys that tie. -/
def tiedRuns (stops : List (ℤ × Float)) : List (List (ℤ × Float)) :=
  stops.splitBy fun a b => decide (Ties a.2 b.2)

/-- The stops of every run of tied keys in the order of their numbers. -/
def settleRuns (stops : List (ℤ × Float)) : List (ℤ × Float) :=
  (tiedRuns stops).flatMap fun run => run.mergeSort fun a b => decide (a.1 ≤ b.1)

/-- A tour with the cities of every run of tied keys in the order of their numbers. -/
def orderTies (tour : List ℤ) (keys : List Float) : List ℤ :=
  (settleRuns (tour.zip keys)).map Prod.fst

section Stops

variable {stops : List (ℤ × Float)}

theorem place_eq_of_mem_run {run : List (ℤ × Float)} (hrun : run ∈ tiedRuns stops) :
    ∀ a ∈ run, ∀ b ∈ run, place a.2 = place b.2 := by
  have hchain : run.IsChain fun a b => place a.2 = place b.2 :=
    (List.isChain_of_mem_splitBy hrun).imp fun a b h => ties_iff.mp (of_decide_eq_true h)
  -- Equality passes along the whole run.
  have hequal : (run.map fun a => place a.2).Pairwise (· = ·) :=
    List.isChain_iff_pairwise.mp ((List.isChain_map _).mpr hchain)
  intro a ha b hb
  exact hequal.forall_of_forall (fun _ _ => rfl) (List.mem_map_of_mem ha) (List.mem_map_of_mem hb)

theorem settleRuns_perm (stops : List (ℤ × Float)) : (settleRuns stops).Perm stops := by
  have hruns : (settleRuns stops).Perm ((tiedRuns stops).flatMap id) :=
    List.Perm.flatMap_left _ fun run _ => run.mergeSort_perm _
  rwa [List.flatMap_id, tiedRuns, List.flatten_splitBy] at hruns

/-- Settled stops stand by the places of their keys and then by number. -/
theorem settleRuns_pairwise (h : stops.Pairwise fun a b => place a.2 ≤ place b.2) :
    (settleRuns stops).Pairwise fun a b => toLex (place a.2, a.1) ≤ toLex (place b.2, b.1) := by
  have hsame : ∀ run ∈ tiedRuns stops, ∀ a ∈ run, ∀ b ∈ run, place a.2 = place b.2 :=
    fun _ => place_eq_of_mem_run
  have hne : (tiedRuns stops).IsChain fun r s =>
      ∃ hr hs, place (r.getLast hr).2 ≠ place (s.head hs).2 := by
    refine (List.isChain_getLast_head_splitBy _ stops).imp ?_
    rintro r s ⟨hr, hs, hbreak⟩
    exact ⟨hr, hs, mt ties_iff.mpr (of_decide_eq_false hbreak)⟩
  have hruns := pairwise_runs hsame hne (by rwa [tiedRuns, List.flatten_splitBy])
  apply List.pairwise_flatMap.mpr
  constructor
  · intro run hrun
    refine (pairwise_mergeSort_key Prod.fst run).imp_of_mem fun {a b} ha hb hle => ?_
    have hplace := hsame run hrun a (List.mem_mergeSort.mp ha) b (List.mem_mergeSort.mp hb)
    exact Prod.Lex.toLex_le_toLex.mpr (.inr ⟨hplace, hle⟩)
  · refine hruns.imp fun {r s} hlt a ha b hb => ?_
    exact Prod.Lex.toLex_le_toLex.mpr
      (.inl (hlt a (List.mem_mergeSort.mp ha) b (List.mem_mergeSort.mp hb)))

end Stops

variable {n : ℕ} {key : Fin n → Float} {visits : List (Fin n)}

/-- A city as a stop with its key. -/
def stopOf (key : Fin n → Float) (i : Fin n) : ℤ × Float := ((i : ℕ), key i)

theorem zip_map_key (key : Fin n → Float) (visits : List (Fin n)) :
    (numbers visits).zip (visits.map key) = visits.map (stopOf key) := List.zip_map'

/-- Keys that never fall along a tour arrange the cities as the tour with its ties in order. -/
theorem orderTies_eq_arrangement (h : visits.Perm (List.finRange n))
    (hsorted : visits.Pairwise fun i j => place (key i) ≤ place (key j)) :
    orderTies (numbers visits) (visits.map key) = numbers (arrangement key) := by
  have hsettled : (settleRuns (visits.map (stopOf key))).Pairwise _ :=
    settleRuns_pairwise (List.pairwise_map.mpr hsorted)
  rw [orderTies, zip_map_key]
  -- The settled stops are those of some arrangement of the cities, which stands in order.
  obtain ⟨settled, heq, hcities⟩ := (congrFun₂ (List.eq_map_comp_perm (stopOf key)) _ visits).mpr
    (settleRuns_perm (visits.map (stopOf key)))
  rw [heq, List.pairwise_map] at hsettled
  have hstanding : settled.Pairwise fun i j => standing key i ≤ standing key j := by
    refine hsettled.imp fun {i j} hle => ?_
    rw [stopOf, stopOf, Prod.Lex.toLex_le_toLex, Nat.cast_le] at hle
    exact Prod.Lex.toLex_le_toLex.mpr hle
  have harranged : settled = arrangement key := by
    have hcities' := (hcities.trans h).trans (arrangement_perm key).symm
    refine hcities'.eq_of_pairwise ?_ hstanding
      ((arrangement_pairwise key).imp fun hahead => (ahead_iff.mp hahead).le)
    intro i j _ _ hij hji
    exact standing_injective key (le_antisymm hij hji)
  rw [heq, List.map_map, harranged]
  rfl

/-- Keys that never fall along a tour keep the tour in order exactly if, from each stop to the
next, the key rises or the number of the city does. -/
theorem isChain_ahead_iff_of_sorted
    (hsorted : visits.Pairwise fun i j => place (key i) ≤ place (key j)) :
    visits.IsChain (Ahead key) ↔
      ((numbers visits).zip (visits.map key)).IsChain fun a b => Precedes a.2 b.2 ∨ a.1 < b.1 := by
  rw [List.pairwise_iff_getElem] at hsorted
  rw [zip_map_key, List.isChain_map, List.isChain_iff_getElem, List.isChain_iff_getElem]
  refine forall₂_congr fun k hk => ?_
  have hle := hsorted k (k + 1) (by omega) hk (Nat.lt_succ_self k)
  have hstep : Precedes (key visits[k]) (key visits[k + 1]) ∨
      Ties (key visits[k]) (key visits[k + 1]) := by
    rw [precedes_iff, ties_iff]
    exact hle.lt_or_eq
  have hnumber : (stopOf key visits[k]).1 < (stopOf key visits[k + 1]).1 ↔
      visits[k] < visits[k + 1] := Nat.cast_lt
  rw [hnumber, Ahead]
  show _ ↔ Precedes (key visits[k]) (key visits[k + 1]) ∨ _
  tauto

/-- Sorting may order keys that tie in another way, which changes no arrangement. -/
theorem arrangement_eq_of_mergeSort {given : Fin n → Float} {keys : List Float}
    (h : visits.Perm (List.finRange n)) (hgiven : visits.map given = keys.mergeSort sortsBefore)
    (hperm : (visits.map key).Perm keys)
    (hsorted : visits.Pairwise fun i j => place (key i) ≤ place (key j)) :
    arrangement given = arrangement key := by
  have hties : (visits.map given).map place = (visits.map key).map place := by
    rw [hgiven]
    refine map_place_mergeSort hperm.symm ?_
    rw [List.map_map, List.pairwise_map]
    exact hsorted
  rw [List.map_map, List.map_map, List.map_inj_left] at hties
  have hsame : ∀ i, place (given i) = place (key i) := fun i =>
    hties i (mem_of_perm_finRange h i)
  apply arrangement_congr
  intro i j
  rw [precedes_iff, precedes_iff, hsame, hsame]

/-- Any tour can be written with any keys, one for each city.  The chromosome holds just these keys,
and it is read as the tour with the cities of every run of tied keys in the order of their numbers.
That is the tour itself exactly if, from each stop to the next, the key rises or the number of the
city does. -/
theorem encodeWithKeys_round_trip {tour : List ℤ} (htour : IsTour n tour) {keys sorted : List Float}
    (hlen : keys.length = n) (hperm : sorted.Perm keys)
    (hsorted : sorted.Pairwise fun a b => ¬ Precedes b a) :
    ∃ x, randomKeys.encodeWithKeys n tour keys = .ok x ∧ x.Perm keys ∧
      randomKeys.decode n x = .ok (orderTies tour sorted) ∧
      (orderTies tour sorted = tour ↔
        (tour.zip sorted).IsChain fun a b => Precedes a.2 b.2 ∨ a.1 < b.1) := by
  obtain ⟨visits, hvisits, rfl⟩ := isTour_iff.mp htour
  obtain ⟨given, hgiven, hencode⟩ := encodeWithKeys_numbers hvisits hlen
  obtain ⟨key, rfl⟩ := exists_map_eq hvisits (hperm.length_eq.trans hlen)
  have hplaces : visits.Pairwise fun i j => place (key i) ≤ place (key j) := by
    refine (List.pairwise_map.mp hsorted).imp fun hle => ?_
    rwa [precedes_iff, not_lt] at hle
  have harrangement := arrangement_eq_of_mergeSort hvisits hgiven hperm hplaces
  refine ⟨List.ofFn given, hencode, ?_, ?_, ?_⟩
  · have hvalues : (List.ofFn given).Perm (visits.map given) := by
      rw [List.ofFn_eq_map]
      exact (hvisits.map given).symm
    rw [hgiven] at hvalues
    exact hvalues.trans (keys.mergeSort_perm sortsBefore)
  · rw [decode_eq_arrangement, harrangement, orderTies_eq_arrangement hvisits hplaces]
  · rw [orderTies_eq_arrangement hvisits hplaces, ← isChain_ahead_iff_of_sorted hplaces,
      isChain_ahead_iff hvisits, numbers, numbers,
      (List.map_injective_iff.mpr number_injective).eq_iff, eq_comm]

/-- Zeros of both signs tie, and so do keys that are no numbers. -/
theorem encodeWithKeys_round_trip_zeros :
    IsTour 4 [3, 1, 2, 0] ∧
    [0, -0, Double.undefined, Double.undefined].Perm [Double.undefined, -0, Double.undefined, 0] ∧
    [0, -0, Double.undefined, Double.undefined].Pairwise (fun a b => ¬ Precedes b a) ∧
    ∃ x, randomKeys.encodeWithKeys 4 [3, 1, 2, 0]
        [Double.undefined, -0, Double.undefined, 0] = .ok x ∧
      randomKeys.decode 4 x = .ok [1, 3, 0, 2] := by
  have htour : IsTour 4 [3, 1, 2, 0] := by decide
  have hperm : [0, -0, Double.undefined, Double.undefined].Perm
      [Double.undefined, -0, Double.undefined, 0] := by decide +kernel
  have hsorted : [0, -0, Double.undefined, Double.undefined].Pairwise fun a b =>
      ¬ Precedes b a := by decide +kernel
  obtain ⟨x, hencode, -, hdecode, -⟩ := encodeWithKeys_round_trip htour rfl hperm hsorted
  have hruns : tiedRuns [(3, 0), (1, -0), (2, Double.undefined), (0, Double.undefined)] =
      [[(3, 0), (1, -0)], [(2, Double.undefined), (0, Double.undefined)]] := rfl
  have hties : orderTies [3, 1, 2, 0] [0, -0, Double.undefined, Double.undefined] =
      [1, 3, 0, 2] := by
    simp [orderTies, settleRuns, hruns, List.mergeSort]
  rw [hties] at hdecode
  exact ⟨htour, hperm, hsorted, x, hencode, hdecode⟩

end Encoding

end CityTour
