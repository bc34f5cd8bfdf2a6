import Mathlib
import CityTour.Problem.Basic
import CityTour.Proofs.Arc.Counted
import CityTour.Proofs.Arc.Order

/-! Sampled chromosomes.  With numbers that count past the cities, the chromosome of any tour has
the declared length, every entry of it is within the declared bounds, and its constraints hold
without a tolerance, so the same is true of all chromosomes of a sample.  Only the arcs of a city
alone break their equations. -/

namespace CityTour

section Lists

variable {β γ : Type} {R : β → γ → Prop} {k : ℕ} {b : β} {c : γ}

theorem forall₂_replicate_left {cs : List γ} (hlen : cs.length = k) (h : ∀ c ∈ cs, R b c) :
    List.Forall₂ R (List.replicate k b) cs := by
  subst hlen
  induction cs with
  | nil => exact .nil
  | cons c cs ih =>
    exact .cons (h c List.mem_cons_self) (ih fun d hd => h d (List.mem_cons_of_mem c hd))

theorem forall₂_replicate_right {bs : List β} (hlen : bs.length = k) (h : ∀ b ∈ bs, R b c) :
    List.Forall₂ R bs (List.replicate k c) :=
  (forall₂_replicate_left (R := flip R) hlen h).flip

end Lists

namespace Encoding

open Scalar

variable {α : Type} [Scalar α] {e : Encoding} {m n : ℕ} {visits : List (Fin n)} {x : List α}

/-! ### Lengths and bounds -/

/-- A chromosome has the declared length, and its entries are within the declared bounds. -/
structure Admits (e : Encoding) (n : ℤ) (x : List α) : Prop where
  length_eq : x.length = e.dimension n
  within : ∃ lower upper, e.bounds n = .ok (lower, upper) ∧ List.Forall₂ (· ≤ ·) lower x ∧
    List.Forall₂ (· ≤ ·) x upper

/-- The greatest value of an entry. -/
def greatest (e : Encoding) (n : ℤ) : α :=
  match e with
  | full | randomKeys => 1
  | cities => ofInt (n - 1)

theorem admits_of_forall {n : ℤ} (hlen : x.length = e.dimension n)
    (h : ∀ v ∈ x, 0 ≤ v ∧ v ≤ e.greatest n) : e.Admits n x := by
  have hfilled : ∀ v : α, filled (e.dimension n) v = .ok (List.replicate x.length v) := by
    intro v
    rw [filled, ← hlen, if_neg (by omega), Int.toNat_natCast]
  refine ⟨hlen, List.replicate x.length 0, List.replicate x.length (e.greatest n), ?_, ?_, ?_⟩
  · unfold bounds
    rw [hfilled, ok_bind, hfilled, ok_bind]
    rfl
  · exact forall₂_replicate_left rfl fun v hv => (h v hv).1
  · exact forall₂_replicate_right rfl fun v hv => (h v hv).2

variable [CountsTo α m]

theorem admits_arcsOf (h : visits.Perm (List.finRange n)) (hm : 0 < m) :
    full.Admits n (arcsOf n (numbers visits) : List α) := by
  have hzero := CountsTo.le_iff (α := α) (m := m) 0 0 (by simp) (by simp)
  have hunit := CountsTo.le_iff (α := α) (m := m) 0 1 (by simp) (by simp; omega)
  have hone := CountsTo.le_iff (α := α) (m := m) 1 1 (by simp; omega) (by simp; omega)
  rw [CountsTo.ofInt_zero m] at hzero hunit
  rw [CountsTo.ofInt_one m] at hunit hone
  refine admits_of_forall (by rw [Arc.length_arcsOf, dimension_full]) fun v hv => ?_
  obtain rfl | rfl := Arc.mem_arcsOf h hv
  · exact ⟨hzero.mpr le_rfl, hunit.mpr zero_le_one⟩
  · exact ⟨hunit.mpr zero_le_one, hone.mpr le_rfl⟩

theorem admits_scatter (h : visits.Perm (List.finRange n)) (hm : n ≤ m) :
    randomKeys.Admits n (scatter n (numbers visits) (evenKeys n) : List α) := by
  rw [evenKeys_eq_map h, scatter_numbers _ h]
  refine admits_of_forall (by rw [List.length_ofFn]; rfl) fun v hv => ?_
  obtain ⟨i, rfl⟩ := List.mem_ofFn.mp hv
  have hplace := List.idxOf_lt_length_iff.mpr (mem_of_perm_finRange h i)
  rw [length_of_perm_finRange h] at hplace
  exact CountsTo.fraction _ n hplace hm

theorem admits_ofInt (h : visits.Perm (List.finRange n)) (hm : n ≤ m) :
    cities.Admits n ((numbers visits).map ofInt : List α) := by
  refine admits_of_forall ?_ fun v hv => ?_
  · rw [List.length_map, length_numbers, length_of_perm_finRange h]
    rfl
  · obtain ⟨i, hi, rfl⟩ := List.mem_map.mp hv
    obtain ⟨c, -, rfl⟩ := List.mem_map.mp hi
    have hc := c.isLt
    have hfirst := CountsTo.le_iff (α := α) (m := m) 0 c (by simp) (by simp; omega)
    have hlast := CountsTo.le_iff (α := α) (m := m) c (n - 1) (by simp; omega)
      (abs_le.mpr ⟨by omega, by omega⟩)
    rw [CountsTo.ofInt_zero m] at hfirst
    exact ⟨hfirst.mpr (by omega), hlast.mpr (by omega)⟩

/-! ### Constraints -/

theorem magnitude_ofInt (a : ℤ) (ha : |a| ≤ m) : magnitude (ofInt a : α) = ofInt |a| := by
  have hlt := CountsTo.lt_iff (α := α) (m := m) a 0 ha (by simp)
  rw [CountsTo.ofInt_zero m] at hlt
  rw [magnitude]
  by_cases hneg : a < 0
  · rw [if_pos (hlt.mpr hneg), CountsTo.neg (m := m) a hneg.ne ha, abs_of_neg hneg]
  · rw [if_neg (mt hlt.mp hneg), abs_of_nonneg (not_lt.mp hneg)]

/-- Of the counted integers, only zero is within no tolerance of zero. -/
theorem magnitude_le_zero_iff (a : ℤ) (ha : |a| ≤ m) : magnitude (ofInt a : α) ≤ 0 ↔ a = 0 := by
  have hle := CountsTo.le_iff (α := α) (m := m) |a| 0 (by rwa [abs_abs]) (by simp)
  rw [CountsTo.ofInt_zero m] at hle
  rw [magnitude_ofInt (m := m) a ha, hle, abs_nonpos_iff]

theorem magnitude_zero_le (m : ℕ) [CountsTo α m] : magnitude (0 : α) ≤ 0 := by
  have hzero := (magnitude_le_zero_iff (α := α) (m := m) 0 (by simp)).mpr rfl
  rwa [CountsTo.ofInt_zero m] at hzero

/-- The arcs of a tour satisfy their constraints, but for those of a city alone. -/
theorem accepts_arcsOf (h : visits.Perm (List.finRange n)) (hn : 0 < n) (hm : n < m) :
    ∃ entries, full.constraints n (arcsOf n (numbers visits) : List α) = .ok entries ∧
      withinTolerance (full.constraintDimensions n).2 0 entries = decide (n ≠ 1) := by
  have hlen := Arc.length_arcsOf (α := α) visits
  have hdimension : (full.constraintDimensions n).2 = ((n - 1) * (n - 2) : ℕ) :=
    Arc.innerCount_natCast hn
  rw [constraints_full hlen, hdimension]
  rcases Nat.lt_or_ge n 2 with hone | htwo
  · obtain rfl : n = 1 := by omega
    obtain ⟨inequalities, hsubtour, hcount⟩ := Arc.exists_subtour hlen.ge hn
    refine ⟨[0 - 1, 0 - 1] ++ inequalities, ?_, ?_⟩
    · rw [Arc.constraints, Arc.degree_one, ok_bind, hsubtour]
      rfl
    · have hminus : (0 - 1 : α) = ofInt (-1) := by
        rw [← CountsTo.ofInt_zero m, ← CountsTo.ofInt_one m,
          CountsTo.sub (m := m) 0 1 (by simp) (by simp; omega), zero_sub]
      have hbroken : ¬ magnitude (0 - 1 : α) ≤ 0 := by
        rw [hminus, magnitude_le_zero_iff (m := m) _ (by simp; omega)]
        decide
      rw [withinTolerance_append hcount]
      simp [hbroken]
  · obtain ⟨inequalities, hsubtour, hcount, hle⟩ := Arc.subtour_arcsOf (α := α) h htwo hm
    refine ⟨List.replicate (2 * n) 0 ++ inequalities, ?_, ?_⟩
    · rw [Arc.constraints, Arc.degree_arcsOf h htwo hm.le, ok_bind, hsubtour]
      rfl
    · have hne : n ≠ 1 := by omega
      rw [withinTolerance_append hcount]
      simpa [magnitude_zero_le (α := α) m, hne] using hle

theorem isInteger_ofInt (a : ℤ) (ha : |a| ≤ m) : isInteger (ofInt a : α) a = true := by
  have hself := (CountsTo.beq_iff (α := α) (m := m) a a ha ha).mpr rfl
  rw [isInteger, CountsTo.truncate_ofInt (m := m) a ha]
  simp [hself]

/-- Each city once in any order sorts into the order of the cities. -/
theorem isPermutation_ofInt (h : visits.Perm (List.finRange n)) (hm : n ≤ m) :
    isPermutation n ((numbers visits).map ofInt : List α) = true := by
  have hcounted : ∀ i ∈ numbers visits, |i| ≤ m := by
    intro i hi
    obtain ⟨c, -, rfl⟩ := List.mem_map.mp hi
    rw [Nat.abs_cast]
    omega
  -- Numbers that count compare as their integers, so sorting commutes with writing them down.
  have hsort : ((numbers visits).map ofInt : List α).mergeSort (fun a b => decide (a ≤ b)) =
      ((numbers visits).mergeSort fun a b => decide (a ≤ b)).map ofInt :=
    (List.map_mergeSort fun a ha b hb => decide_eq_decide.mpr
      (CountsTo.le_iff (m := m) a b (hcounted a ha) (hcounted b hb)).symm).symm
  have hvisits := visitsAll_iff.mpr (isTour_numbers_iff.mpr h)
  simp only [visitsAll, Bool.and_eq_true, beq_iff_eq, Int.toNat_natCast] at hvisits
  rw [isPermutation, hsort, hvisits.2, List.length_map, List.map_map, Bool.and_eq_true]
  refine ⟨beq_iff_eq.mpr hvisits.1, List.all_eq_true.mpr ?_⟩
  rintro ⟨v, k⟩ hentry
  obtain ⟨hk, hv⟩ := List.mem_zipIdx' hentry
  rw [List.length_map, List.length_range] at hk
  rw [List.getElem_map, List.getElem_range] at hv
  rw [hv]
  exact isInteger_ofInt (m := m) k (by rw [Nat.abs_cast]; omega)

/-- The chromosome of a tour is admitted by its encoding, and its constraints hold without a
tolerance unless it is the arcs of a city alone. -/
theorem encode_valid (e : Encoding) (h : visits.Perm (List.finRange n)) (hn : 0 < n) (hm : n < m) :
    ∃ (x entries : List α), e.encode n (numbers visits) = .ok x ∧ e.Admits n x ∧
      e.constraints n x = .ok entries ∧
      withinTolerance (e.constraintDimensions n).2 0 entries = decide (e = full → n ≠ 1) := by
  have hcheck := checkTour_of_isTour (isTour_numbers_iff.mpr h)
  cases e with
  | full =>
    obtain ⟨entries, hconstraints, hholds⟩ := accepts_arcsOf (α := α) h hn hm
    refine ⟨_, entries, ?_, admits_arcsOf (m := m) h (by omega), hconstraints, ?_⟩
    · rw [encode, hcheck]
      rfl
    · simpa using hholds
  | randomKeys =>
    refine ⟨_, [], ?_, admits_scatter (m := m) h hm.le, rfl, rfl⟩
    rw [encode, hcheck]
    rfl
  | cities =>
    refine ⟨_, [0], ?_, admits_ofInt (m := m) h hm.le, ?_, ?_⟩
    · rw [encode, hcheck]
      rfl
    · rw [constraints, permutationEntry, isPermutation_ofInt (m := m) h hm.le]
      rfl
    · have hholds := @withinTolerance_append α _ [0] [] 0 rfl 0
      show withinTolerance 0 0 [0] = true
      simpa [magnitude_zero_le (α := α) m] using hholds

end Encoding

namespace Problem

open Scalar

variable {α : Type} [Scalar α] {m : ℕ} [CountsTo α m]

/-- A sample of tours has as many chromosomes as are asked for, each of the declared length and
within the declared bounds, and feasible without a tolerance, but for the arcs of a city alone. -/
theorem sample_valid (p : Problem α) (hm : p.size < m) {draw : ℕ → List ℤ} {start count : ℕ}
    (hdraw : ∀ k < count, IsTour p.size (draw (start + k))) :
    ∃ xs, p.sample draw start count = .ok xs ∧ xs.length = count ∧
      ∀ x ∈ xs, p.encoding.Admits p.size x ∧
        p.feasible x 0 = .ok (decide (p.encoding = .full → p.size ≠ 1)) := by
  have hstep : ∀ k ∈ List.range count, ∃ x, p.encode (draw (start + k)) = .ok x ∧
      p.encoding.Admits p.size x ∧
      p.feasible x 0 = .ok (decide (p.encoding = .full → p.size ≠ 1)) := by
    intro k hk
    obtain ⟨visits, hperm, hvisits⟩ := isTour_iff.mp (hdraw k (List.mem_range.mp hk))
    obtain ⟨x, entries, hencode, hadmits, hconstraints, hholds⟩ :=
      p.encoding.encode_valid (α := α) hperm p.network.size_pos hm
    refine ⟨x, by rw [encode, ← hvisits, hencode], hadmits, ?_⟩
    rw [feasible, constraints, hconstraints, ok_bind, hholds]
    rfl
  obtain ⟨xs, hxs, hlen, hall⟩ := exists_mapM_ok_forall hstep
  exact ⟨xs, hxs, hlen.trans List.length_range, hall⟩

/-- Three draws of tours through three cities with doubles, the script starting over. -/
theorem sample_valid_triangle : (3 < 2 ^ 53) ∧
    (∀ k < 3, IsTour 3 (scripted [[2, 0, 1], [1, 0, 2]] (1 + k))) ∧
    ∃ xs, (Problem.mk 3 Network.triangle .full).sample
        (scripted [[2, 0, 1], [1, 0, 2]]) 1 3 = .ok xs ∧ xs.length = 3 ∧
      ∀ x ∈ xs, Encoding.full.Admits 3 x ∧
        (Problem.mk 3 Network.triangle .full).feasible x 0 = .ok true := by
  have hsize : 3 < 2 ^ 53 := by norm_num
  have hdraw : ∀ k < 3, IsTour 3 (scripted [[2, 0, 1], [1, 0, 2]] (1 + k)) := by decide
  exact ⟨hsize, hdraw, sample_valid ⟨3, Network.triangle, .full⟩ hsize hdraw⟩

/-- A city alone, with a value of four and a budget of two. -/
def alone : Problem Float where
  size := 1
  network :=
    { weights :=
        { rows := #v[#v[0]]
          size_pos := by decide
          diagonal := by decide +kernel
          defined := by decide
          nonzero := by decide }
      values := #v[4]
      budget := 2
      budget_defined := by decide +kernel
      budget_nonneg := by decide +kernel }
  encoding := .full

/-- The arcs of a city alone are not feasible, though they are those of its only tour. -/
theorem sample_infeasible_alone : IsTour alone.size [0] ∧
    alone.sample (fun _ => [0]) 0 1 = .ok [[]] ∧ alone.feasible [] 0 = .ok false := by
  have htour : IsTour 1 [0] := by decide
  have hencode : (Encoding.full.encode (1 : ℕ) [0] : Except Fault (List Float)) = .ok [] := by
    rw [Encoding.encode, Encoding.checkTour_of_isTour htour]
    rfl
  refine ⟨htour, ?_, ?_⟩
  · show (Encoding.full.encode (1 : ℕ) [0] >>= fun x : List Float => Except.ok [x]) = _
    rw [hencode, ok_bind]
  show Except.ok (Encoding.withinTolerance 0 0 [(0 - 1 : Float), 0 - 1]) = _
  have hbroken : Encoding.withinTolerance 0 0 [(0 - 1 : Float), 0 - 1] = false := by
    decide +kernel
  rw [hbroken]

end Problem

end CityTour
