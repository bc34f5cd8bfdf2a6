import Mathlib
import CityTour.Problem.Basic
import CityTour.Proofs.Encoding.Arrange
import CityTour.Proofs.Encoding.Decode
import CityTour.Proofs.Number.Counting

/-! Cities written as doubles.  A double is an integer only if its exact value is, however large the
integer, so the test for permutations accepts exactly the lists whose values are those of a tour.
Sorting matters to it only where every entry is a number: a list with one that is none is refused
in any order.  Cutting the entries to integers loses nothing exactly for the lists that pass. -/

namespace CityTour

/-! ### Doubles that are integers -/

namespace Scalar

variable {α : Type} [Scalar α] {v : α} {k : ℤ}

theorem isInteger_eq_true_iff :
    isInteger v k = true ↔ truncate v = .ok k ∧ (ofInt k == v) = true := by
  rw [isInteger]
  cases htruncate : truncate v with
  | error fault => simp
  | ok i =>
    rw [Bool.and_eq_true, beq_iff_eq, Except.ok.injEq]
    refine and_congr_right fun hik => ?_
    rw [hik]

end Scalar

namespace Double

open Scalar

variable {x y : Float} {q : ℚ} {s : Bool} {m : ℕ} {e i : ℤ}

theorem abs_truncation_le (s : Bool) (m : ℕ) (he : e < 0) : |truncation s m e| ≤ m := by
  have hdiv : ((m / 2 ^ (-e).toNat : ℕ) : ℤ) ≤ m := Nat.cast_le.mpr (Nat.div_le_self m _)
  simp only [truncation, Nat.pow_eq, if_pos he]
  cases s with
  | false => exact (Nat.abs_cast _).trans_le hdiv
  | true => exact (abs_neg _).trans_le ((Nat.abs_cast _).trans_le hdiv)

theorem abs_truncation_eq (s : Bool) (m : ℕ) (he : 0 ≤ e) :
    (|truncation s m e| : ℚ) = m * 2 ^ e := by
  obtain ⟨k, rfl⟩ := Int.eq_ofNat_of_zero_le he
  simp only [truncation, Nat.pow_eq, if_neg (not_lt.mpr he)]
  cases s with
  | false => simp
  | true => simp

/-- The integer part of a double is its own double. -/
theorem value?_ofInt_towardZero (h : value? x = some q) :
    value? (Double.ofInt (towardZero q)) = some (towardZero q : ℚ) := by
  obtain ⟨s, m, e, hreading, rfl⟩ := exists_reading_of_value h
  obtain ⟨hcanonical, hmax, -⟩ := canonical_of_reading hreading
  rw [← truncation_eq]
  by_cases he : e < 0
  · apply value?_ofInt
    have hle := abs_truncation_le s m he
    have hlt := hcanonical.mantissa_lt
    omega
  · rw [ofInt_eq_rounded]
    exact Representable.value_eq ⟨m, e, hcanonical, hmax, abs_truncation_eq s m (not_lt.mp he)⟩

theorem isInteger_iff : isInteger x i = true ↔ value? x = some (i : ℚ) := by
  rw [isInteger_eq_true_iff]
  cases hvalue : value? x with
  | none =>
    have hfinite : ¬ x.isFinite = true := by simp [isFinite_iff, hvalue]
    have htruncate : Scalar.truncate x = .error (if x.isNaN then .undefinedNumber
      else .unboundedNumber) := truncate_of_not_isFinite hfinite
    simp [htruncate]
  | some q =>
    have htruncate : Scalar.truncate x = .ok (towardZero q) := truncate_of_value hvalue
    have hequal := beq_iff_of_value (value?_ofInt_towardZero hvalue) hvalue
    rw [htruncate, Except.ok.injEq, Option.some.injEq]
    constructor
    · rintro ⟨rfl, hbeq⟩
      exact (hequal.mp hbeq).symm
    · rintro rfl
      rw [towardZero_intCast] at hequal ⊢
      exact ⟨rfl, hequal.mpr rfl⟩

theorem not_le_of_lt (h : x < y) : ¬ y ≤ x := by
  have hdefined : ¬ (reading x = .undefined ∨ reading y = .undefined) := fun hundefined =>
    (incomparable_of_undefined hundefined).2.1 h
  obtain ⟨hx, hy⟩ := not_or.mp hdefined
  rw [lt_iff_of_compare (compare_place hx hy)] at h
  rw [le_iff_of_compare (compare_place hy hx)]
  exact h.not_ge

/-- Doubles that are all numbers are sorted by their order. -/
theorem pairwise_mergeSort_le {l : List Float} (h : ∀ v ∈ l, v.isNaN = false) :
    (l.mergeSort fun a b => decide (a ≤ b)).Pairwise (· ≤ ·) := by
  have hle : ∀ a ∈ l, ∀ b ∈ l, a ≤ b ↔ place a ≤ place b := by
    intro a ha b hb
    have hdefined : ∀ v ∈ l, reading v ≠ .undefined := by
      intro v hv
      rw [Ne, ← isNaN_iff, h v hv]
      exact Bool.false_ne_true
    exact le_iff_of_compare (compare_place (hdefined a ha) (hdefined b hb))
  have hplaces : (l.mergeSort fun a b => decide (a ≤ b)).map place =
      (l.map place).mergeSort fun a b => decide (a ≤ b) :=
    List.map_mergeSort fun a ha b hb => decide_eq_decide.mpr (hle a ha b hb)
  have hsorted := pairwise_mergeSort_key id (l.map place)
  simp only [id] at hsorted
  rw [← hplaces, List.pairwise_map] at hsorted
  refine hsorted.imp_of_mem fun {a b} ha hb hab => ?_
  exact (hle a (List.mem_mergeSort.mp ha) b (List.mem_mergeSort.mp hb)).mpr hab

end Double

/-! ### Lists that hold each city once -/

namespace Encoding

open Scalar Double

variable {n : ℕ} {x : List Float}

/-- The values of the cities. -/
def cityValues (n : ℕ) : List (Option ℚ) := (List.range n).map fun k : ℕ => some (k : ℚ)

theorem nodup_cityValues (n : ℕ) : (cityValues n).Nodup :=
  List.nodup_range.map fun a b h => by simpa using h

theorem countsUp_iff {sorted : List Float} :
    countsUp sorted = true ↔ sorted.map value? = cityValues sorted.length := by
  rw [countsUp, List.all_eq_true]
  constructor
  · intro h
    refine List.ext_getElem (by simp [cityValues]) fun k hk _ => ?_
    rw [List.length_map] at hk
    have hentry := h (sorted[k], k) (by simp [List.mem_zipIdx_iff_getElem?])
    simpa [cityValues] using isInteger_iff.mp hentry
  · rintro h ⟨v, k⟩ hentry
    obtain ⟨hk, hv⟩ := List.mem_zipIdx' hentry
    have hvalue : (sorted.map value?)[k]? = (cityValues sorted.length)[k]? := by rw [h]
    apply isInteger_iff.mpr
    simpa [cityValues, hk, hv] using hvalue

theorem defined_of_perm (h : (x.map value?).Perm (cityValues n)) : ∀ v ∈ x, v.isNaN = false := by
  intro v hv
  obtain ⟨k, -, hk⟩ := List.mem_map.mp (h.mem_iff.mp (List.mem_map_of_mem hv))
  rw [Bool.eq_false_iff, Ne, isNaN_iff]
  intro hundefined
  rw [value?, hundefined] at hk
  cases hk

/-- Whatever sorting makes of a list with entries that are no numbers, the result counts up through
the cities exactly if the values of the list are those of the cities. -/
theorem countsUp_sorted_iff {sorted : List Float} (hperm : sorted.Perm x)
    (hsorted : (∀ v ∈ x, v.isNaN = false) → sorted.Pairwise (· ≤ ·)) :
    x.length = n ∧ countsUp sorted = true ↔ (x.map value?).Perm (cityValues n) := by
  rw [countsUp_iff, hperm.length_eq]
  constructor
  · rintro ⟨rfl, heq⟩
    exact heq ▸ (hperm.map value?).symm
  · intro h
    have hlen : x.length = n := by simpa [cityValues] using h.length_eq
    refine ⟨hlen, hlen ▸ ?_⟩
    -- Values never fall along the sorted list, as far as they are known.
    have hvalues : (sorted.map value?).Pairwise fun o o' =>
        ∀ a b, o = some a → o' = some b → a ≤ b := by
      rw [List.pairwise_map]
      refine (hsorted (defined_of_perm h)).imp fun {v w} hle a b ha hb => ?_
      exact (le_iff_of_value ha hb).mp hle
    have hcities : (cityValues n).Pairwise fun o o' =>
        ∀ a b, o = some a → o' = some b → a ≤ b := by
      rw [cityValues, List.pairwise_map]
      refine List.pairwise_lt_range.imp fun {i j} hij a b ha hb => ?_
      rw [← Option.some.inj ha, ← Option.some.inj hb]
      exact Nat.cast_le.mpr hij.le
    have hsame := (hperm.map value?).trans h
    refine hsame.eq_of_pairwise ?_ hvalues hcities
    intro o o' ho ho' hle hge
    obtain ⟨i, -, rfl⟩ := List.mem_map.mp (hsame.mem_iff.mp ho)
    obtain ⟨j, -, rfl⟩ := List.mem_map.mp ho'
    exact congrArg some (le_antisymm (hle i j rfl rfl) (hge j i rfl rfl))

theorem isPermutation_iff_perm :
    isPermutation n x = true ↔ (x.map value?).Perm (cityValues n) := by
  rw [← countsUp_sorted_iff (x.mergeSort_perm _) pairwise_mergeSort_le, isPermutation,
    Bool.and_eq_true, beq_iff_eq, Nat.cast_inj]

/-- As many values as there are cities are those of the cities if each of these occurs once. -/
theorem perm_cityValues_iff : (x.map value?).Perm (cityValues n) ↔
    x.length = n ∧ ∀ i < n, x.countP (fun v => value? v = some (i : ℚ)) = 1 := by
  have hcount : ∀ i : ℕ, x.countP (fun v => value? v = some (i : ℚ)) =
      (x.map value?).count (some (i : ℚ)) := by
    intro i
    rw [List.count_eq_countP, List.countP_map]
    exact List.countP_congr fun v _ => by simp
  simp only [hcount]
  constructor
  · intro h
    refine ⟨by simpa [cityValues] using h.length_eq, fun i hi => ?_⟩
    rw [h.count_eq]
    apply List.count_eq_one_of_mem (nodup_cityValues n)
    exact List.mem_map_of_mem (List.mem_range.mpr hi)
  · rintro ⟨hlen, hone⟩
    have hsub : cityValues n ⊆ x.map value? := by
      intro o ho
      obtain ⟨i, hi, rfl⟩ := List.mem_map.mp ho
      apply List.count_pos_iff.mp
      rw [hone i (List.mem_range.mp hi)]
      exact Nat.one_pos
    have hsubperm := (nodup_cityValues n).subperm hsub
    exact (hsubperm.perm_of_length_le (by simp [cityValues, hlen])).symm

/-! ### Cutting and writing back -/

theorem encode_cities_eq_ok_iff {α : Type} [Scalar α] {tour : List ℤ} {y : List α} :
    cities.encode n tour = .ok y ↔ IsTour n tour ∧ tour.map Scalar.ofInt = y := by
  rw [encode]
  by_cases h : IsTour n tour
  · rw [checkTour_of_isTour h, ok_bind]
    simp [h, pure, Except.pure]
  · rw [checkTour_of_not_isTour h]
    simp [h, refuse, bind, Except.bind]

/-- Entries are the integers that they are cut to if their doubles are equal to them. -/
theorem map_value?_eq_iff {tour : List ℤ} : x.map value? = tour.map (fun k : ℤ => some (k : ℚ)) ↔
    x.mapM Scalar.truncate = .ok tour ∧
      List.Forall₂ (fun a b => (a == b) = true) (tour.map Double.ofInt) x := by
  rw [mapM_eq_ok_iff]
  induction x generalizing tour with
  | nil => cases tour <;> simp
  | cons v x ih =>
    cases tour with
    | nil => simp
    | cons k tour =>
      have hhead : value? v = some (k : ℚ) ↔
          Scalar.truncate v = .ok k ∧ (Double.ofInt k == v) = true := by
        rw [← isInteger_iff, isInteger_eq_true_iff]
        rfl
      rw [List.map_cons, List.map_cons, List.cons.injEq, hhead, ih, List.map_cons,
        List.forall₂_cons, List.forall₂_cons]
      tauto

theorem cityValues_eq (n : ℕ) :
    cityValues n = ((List.range n).map Int.ofNat).map fun k : ℤ => some (k : ℚ) := by
  rw [List.map_map]
  rfl

/-- Entries that are cut to a tour and equal to the cities of that tour hold each city once. -/
theorem exists_rewrite_iff : (∃ tour y, cities.decode n x = .ok tour ∧
      cities.encode n tour = .ok y ∧ List.Forall₂ (fun a b => (a == b) = true) y x) ↔
    (x.map value?).Perm (cityValues n) := by
  rw [cityValues_eq, ← congrFun₂ (List.eq_map_comp_perm fun k : ℤ => some (k : ℚ)) (x.map value?)
    ((List.range n).map Int.ofNat)]
  constructor
  · rintro ⟨tour, y, hdecode, hencode, hequal⟩
    obtain ⟨htour, rfl⟩ := encode_cities_eq_ok_iff.mp hencode
    exact ⟨tour, map_value?_eq_iff.mpr ⟨hdecode, hequal⟩, htour⟩
  · rintro ⟨tour, hvalues, htour⟩
    obtain ⟨hdecode, hequal⟩ := map_value?_eq_iff.mp hvalues
    exact ⟨tour, _, hdecode, encode_cities_eq_ok_iff.mpr ⟨htour, rfl⟩, hequal⟩

end Encoding

namespace Problem

open Scalar Encoding Double

variable {t : Float}

theorem withinTolerance_singleton (c t : Float) :
    withinTolerance 0 t [c] = decide (magnitude c ≤ t) := by
  have happend := @withinTolerance_append Float _ [c] [] 0 rfl t
  simpa using happend

/-- A tolerance below one accepts exactly the cities that are a permutation. -/
theorem feasible_cities (p : Problem Float) (hcities : p.encoding = .cities) (h0 : 0 ≤ t)
    (h1 : t < 1) (x : List Float) : p.feasible x t = .ok (isPermutation p.size x) := by
  have hwithin : withinTolerance 0 t (permutationEntry p.size x) = isPermutation p.size x := by
    rw [permutationEntry, withinTolerance_singleton]
    cases isPermutation p.size x with
    | false => exact decide_eq_false (not_le_of_lt h1)
    | true => exact decide_eq_true h0
  rw [feasible, constraints, hcities, Encoding.constraints, ok_bind, ← hwithin]
  rfl

/-- The test for permutations accepts exactly the lists with one entry for each city and with each
city as the exact value of one entry, however large the cities are.  All entries of such a list are
integers, none of them undefined; and any order of the entries serves that is sorted if all of them
are numbers.  Cities are feasible within a tolerance below one exactly if they pass the test, which
they do exactly if they are cut to a tour whose chromosome is equal to them. -/
theorem isPermutation_exact (x : List Float) :
    (∀ n : ℕ, isPermutation n x = true ↔
      x.length = n ∧ ∀ i < n, x.countP (fun v => value? v = some (i : ℚ)) = 1) ∧
    (∀ n : ℕ, isPermutation n x = true →
      ∀ v ∈ x, v.isNaN = false ∧ ∃ i : ℤ, value? v = some (i : ℚ)) ∧
    (∀ sorted : List Float, sorted.Perm x →
      ((∀ v ∈ x, v.isNaN = false) → sorted.Pairwise (· ≤ ·)) →
      ∀ n : ℕ, isPermutation n x = (x.length == n && countsUp sorted)) ∧
    ∀ p : Problem Float, p.encoding = .cities → ∀ t : Float, 0 ≤ t → t < 1 →
      p.feasible x t = .ok (isPermutation p.size x) ∧
      (isPermutation p.size x = true ↔ ∃ tour y, p.decode x = .ok tour ∧ p.encode tour = .ok y ∧
        List.Forall₂ (fun a b => (a == b) = true) y x) := by
  refine ⟨fun n => isPermutation_iff_perm.trans perm_cityValues_iff, ?_, ?_, ?_⟩
  · intro n h v hv
    have hperm := isPermutation_iff_perm.mp h
    obtain ⟨k, -, hk⟩ := List.mem_map.mp (hperm.mem_iff.mp (List.mem_map_of_mem hv))
    exact ⟨defined_of_perm hperm v hv, k, hk.symm⟩
  · intro sorted hperm hsorted n
    rw [Bool.eq_iff_iff, isPermutation_iff_perm, ← countsUp_sorted_iff hperm hsorted,
      Bool.and_eq_true, beq_iff_eq]
  · intro p hcities t h0 h1
    refine ⟨feasible_cities p hcities h0 h1 x, ?_⟩
    rw [isPermutation_iff_perm, ← exists_rewrite_iff, decode, hcities]
    simp only [encode, hcities]

/-- A zero of either sign is the first city, and a fraction that is cut to a city is none. -/
theorem isPermutation_exact_triangle :
    (0 : Float) ≤ 0.5 ∧ (0.5 : Float) < 1 ∧
    (mk 3 Network.triangle .cities).feasible [2, -0, 1] 0.5 = .ok true ∧
    (mk 3 Network.triangle .cities).decode [2.5, 0, 1] = .ok [2, 0, 1] ∧
    (mk 3 Network.triangle .cities).feasible [2.5, 0, 1] 0.5 = .ok false := by
  have h0 : (0 : Float) ≤ 0.5 := by decide +kernel
  have h1 : (0.5 : Float) < 1 := by decide +kernel
  obtain ⟨hwhole, -, -, haccepted⟩ := isPermutation_exact [2, -0, 1]
  obtain ⟨hfraction, -, -, hrefused⟩ := isPermutation_exact [2.5, 0, 1]
  have hyes : isPermutation 3 [2, -0, (1 : Float)] = true :=
    (hwhole 3).mpr ⟨rfl, by decide +kernel⟩
  have hno : isPermutation 3 [2.5, 0, (1 : Float)] = false := by
    rw [Bool.eq_false_iff, Ne]
    exact mt (hfraction 3).mp (by decide +kernel)
  have hcut : (mk 3 Network.triangle .cities).decode [2.5, 0, 1] = .ok [2, 0, 1] := by
    have hvalues : ([2.5, 0, 1] : List Float).filterMap value? = [5 / 2, 0, 1] := by
      decide +kernel
    have hdecode := decode_cities_of_finite (n := 3) (x := [2.5, 0, 1]) (by decide +kernel)
    have hcities : [5 / 2, 0, 1].map towardZero = [2, 0, 1] := by decide +kernel
    rw [hvalues, hcities] at hdecode
    exact hdecode
  have hfeasible := (haccepted ⟨3, Network.triangle, .cities⟩ rfl 0.5 h0 h1).1
  have hinfeasible := (hrefused ⟨3, Network.triangle, .cities⟩ rfl 0.5 h0 h1).1
  exact ⟨h0, h1, hfeasible.trans (congrArg Except.ok hyes), hcut,
    hinfeasible.trans (congrArg Except.ok hno)⟩

end Problem

end CityTour
