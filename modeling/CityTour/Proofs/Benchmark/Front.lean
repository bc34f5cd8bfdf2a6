import Mathlib
import CityTour.Benchmark.Zdt1
import CityTour.Proofs.Sequence

/-! The front of the benchmark ZDT1, for sums in blocks without rounding.  Filling the lanes moves
numbers from a list to the lanes and keeps their total, joining the lanes adds them up, and the
parts of a split list add up to the whole list; so the sum of real numbers in blocks is their plain
sum, however many there are (`sum_eq`). -/

namespace CityTour

/-- The real numbers as the numbers of the library. -/
noncomputable instance Scalar.real : Scalar ℝ where
  ofInt i := i
  truncate x := .ok (if 0 ≤ x then ⌊x⌋ else ⌈x⌉)
  decideLE := inferInstance
  decideLT := inferInstance

namespace PairwiseSum

theorem foldl_add (xs : List ℝ) (total : ℝ) : xs.foldl (· + ·) total = total + xs.sum := by
  induction xs generalizing total with
  | nil => simp
  | cons x xs ih => rw [List.foldl_cons, ih, List.sum_cons, add_assoc]

/-- The first eight numbers and the rest add up to all of them. -/
theorem sum_get_add_sum_drop {xs : List ℝ} (h : 8 ≤ xs.length) :
    ∑ k : Fin 8, xs.get ⟨k, by omega⟩ + (xs.drop 8).sum = xs.sum := by
  have hhead : (xs.take 8).sum = ∑ k : Fin 8, xs.get ⟨k, by omega⟩ := by
    have hlen : (xs.take 8).length = 8 := by simpa using h
    rw [← List.ofFn_get (xs.take 8), List.sum_ofFn, ← Fin.sum_congr' _ hlen.symm]
    simp
  rw [← hhead, List.sum_take_add_sum_drop]

/-- Filling the lanes keeps the total. -/
theorem sum_fillLanes (lanes : Vector ℝ 8) (xs : List ℝ) :
    ∑ k : Fin 8, (fillLanes lanes xs).1[k] + (fillLanes lanes xs).2.sum =
      ∑ k : Fin 8, lanes[k] + xs.sum := by
  fun_induction fillLanes lanes xs with
  | case1 lanes xs h ih =>
    rw [ih, ← sum_get_add_sum_drop h, ← add_assoc, ← Finset.sum_add_distrib]
    simp
  | case2 lanes xs h => rfl

theorem joinLanes_eq (r : Vector ℝ 8) : joinLanes r = ∑ k : Fin 8, r[k] := by
  have hsum : ∑ k : Fin 8, r[k] = r[0] + r[1] + r[2] + r[3] + r[4] + r[5] + r[6] + r[7] :=
    Fin.sum_univ_eight fun k : Fin 8 => r[k]
  rw [joinLanes, hsum]
  ring

theorem blocks_eq (xs : List ℝ) : blocks xs = xs.sum := by
  fun_induction blocks xs with
  | case1 xs h => rw [foldl_add, neg_zero, zero_add]
  | case2 xs h hb filled =>
    rw [foldl_add, joinLanes_eq, sum_fillLanes, ← sum_get_add_sum_drop (Nat.le_of_not_lt h)]
    simp
  | case3 xs h hb half ihtake ihdrop => rw [ihtake, ihdrop, List.sum_take_add_sum_drop]

theorem sum_eq (xs : List ℝ) : PairwiseSum.sum xs = xs.sum := by
  rw [PairwiseSum.sum, blocks_eq, add_zero]

end PairwiseSum

/-! ### The front of the benchmark ZDT1, in exact real arithmetic

The second objective grows with the spread of a point, which is least when all variables but the
first are zero.  So the points without an excess of spread are those that no other point of the box
improves on (`front`). -/

noncomputable instance : SquareRoot ℝ := ⟨Real.sqrt⟩

namespace Zdt1

open Scalar

/-- A point of the unit box. -/
structure InBox (z : Zdt1) (x : List ℝ) : Prop where
  length_eq : x.length = z.dimension
  mem_Icc : ∀ v ∈ x, v ∈ Set.Icc (0 : ℝ) 1

/-- One point is no worse than another in both objectives, and better in one. -/
def Dominates (z : Zdt1) (y x : List ℝ) : Prop :=
  ∃ p q : ℝ × ℝ, z.objectives y = .ok p ∧ z.objectives x = .ok q ∧
    p.1 ≤ q.1 ∧ p.2 ≤ q.2 ∧ (p.1 < q.1 ∨ p.2 < q.2)

/-- No point of the box dominates. -/
def ParetoOptimal (z : Zdt1) (x : List ℝ) : Prop := ∀ y, z.InBox y → ¬ z.Dominates y x

/-! ### The second objective -/

/-- The second objective by the spread and the first objective. -/
noncomputable def second (spread first : ℝ) : ℝ := spread * (1 - √(first / spread))

theorem second_one (first : ℝ) : second 1 first = 1 - √first := by
  rw [second, div_one, one_mul]

theorem second_eq {spread first : ℝ} (hspread : 0 < spread) :
    second spread first = spread - √first * √spread := by
  have hroot : √spread ≠ 0 := (Real.sqrt_pos.mpr hspread).ne'
  have hshare : spread * (√first / √spread) = √first * √spread := by
    nth_rewrite 1 [← Real.mul_self_sqrt hspread.le]
    field_simp
  rw [second, Real.sqrt_div' _ hspread.le, mul_sub, mul_one, hshare]

/-- From one on the second objective grows with the spread. -/
theorem strictMonoOn_second {first : ℝ} (h : first ≤ 1) :
    StrictMonoOn (fun spread => second spread first) (Set.Ici 1) := by
  intro a ha b hb hlt
  rw [Set.mem_Ici] at ha hb
  have hroots : √a < √b := Real.sqrt_lt_sqrt (by linarith) hlt
  have hfirst : √first ≤ 1 := Real.sqrt_le_one.mpr h
  have hone : 1 ≤ √a := Real.one_le_sqrt.mpr ha
  have hpos : 0 < (√b - √a) * (√b + √a - √first) := mul_pos (by linarith) (by linarith)
  have hsqa : √a * √a = a := Real.mul_self_sqrt (by linarith)
  have hsqb : √b * √b = b := Real.mul_self_sqrt (by linarith)
  show second a first < second b first
  rw [second_eq (by linarith), second_eq (by linarith)]
  linarith

variable {z : Zdt1} {first : ℝ} {rest other x : List ℝ}

/-- How much more than one the spread is. -/
noncomputable def excess (z : Zdt1) (rest : List ℝ) : ℝ := 9 * rest.sum / (z.dimension - 1)

theorem sub_one_pos (z : Zdt1) : (0 : ℝ) < z.dimension - 1 := by
  have htwo : (2 : ℝ) ≤ z.dimension := by exact_mod_cast z.two_le
  linarith

theorem excess_perm (h : other.Perm rest) : z.excess other = z.excess rest := by
  rw [excess, excess, h.sum_eq]

theorem spread_eq (hlen : (first :: rest).length = z.dimension) :
    z.spread (first :: rest) = .ok (1 + z.excess rest) := by
  have hcount : (ofInt (z.dimension - 1) : ℝ) = z.dimension - 1 := by
    show ((z.dimension - 1 : ℤ) : ℝ) = _
    push_cast
    rfl
  rw [spread, if_pos hlen, List.drop_one, List.tail_cons, PairwiseSum.sum_eq, hcount]
  rfl

theorem convergence_eq (hlen : (first :: rest).length = z.dimension) :
    z.convergence (first :: rest) = .ok (z.excess rest) := by
  have hexcess : 1 + z.excess rest - 1 = z.excess rest := add_sub_cancel_left ..
  rw [convergence, spread_eq hlen, ok_bind]
  exact congrArg Except.ok hexcess

namespace InBox

variable (h : z.InBox (first :: rest))

theorem exists_cons (h : z.InBox x) : ∃ first rest, x = first :: rest := by
  cases x with
  | nil =>
    have hlen := h.length_eq
    have htwo := z.two_le
    rw [List.length_nil] at hlen
    omega
  | cons first rest => exact ⟨first, rest, rfl⟩

include h

theorem first_mem : first ∈ Set.Icc (0 : ℝ) 1 := h.mem_Icc _ List.mem_cons_self

theorem rest_nonneg : ∀ v ∈ rest, 0 ≤ v := fun v hv => (h.mem_Icc v (List.mem_cons_of_mem _ hv)).1

theorem excess_nonneg : 0 ≤ z.excess rest :=
  div_nonneg (mul_nonneg (by norm_num) (List.sum_nonneg h.rest_nonneg)) z.sub_one_pos.le

theorem excess_le : z.excess rest ≤ 9 := by
  have hsum : rest.sum ≤ rest.length • (1 : ℝ) :=
    List.sum_le_card_nsmul _ _ fun v hv => (h.mem_Icc v (List.mem_cons_of_mem _ hv)).2
  have hlen : (rest.length : ℝ) = z.dimension - 1 := by
    rw [← h.length_eq, List.length_cons]
    push_cast
    ring
  rw [nsmul_one, hlen] at hsum
  rw [excess, div_le_iff₀ z.sub_one_pos]
  linarith

theorem excess_eq_zero_iff : z.excess rest = 0 ↔ ∀ v ∈ rest, v = 0 := by
  have hsum : z.excess rest = 0 ↔ rest.sum = 0 := by
    rw [excess, div_eq_zero_iff, or_iff_left z.sub_one_pos.ne', mul_eq_zero,
      or_iff_right (by norm_num)]
  rw [hsum]
  constructor
  · intro hzero v hv
    exact List.all_zero_of_le_zero_le_of_sum_eq_zero h.rest_nonneg hzero hv
  · exact List.sum_eq_zero

theorem objectives_eq :
    z.objectives (first :: rest) = .ok (first, second (1 + z.excess rest) first) := by
  have hspread : 0 < 1 + z.excess rest := by linarith [h.excess_nonneg]
  have hnonzero : ((1 + z.excess rest : ℝ) == 0) = false := by simpa using hspread.ne'
  have hshare : ¬ first / (1 + z.excess rest) < 0 :=
    not_lt.mpr (div_nonneg h.first_mem.1 hspread.le)
  rw [objectives, spread_eq h.length_eq, ok_bind]
  dsimp only [List.headD_cons]
  rw [hnonzero, if_neg Bool.false_ne_true, if_neg hshare]
  rfl

/-- A point is never below the front, and on it only without an excess of spread. -/
theorem le_second : 1 - √first ≤ second (1 + z.excess rest) first := by
  have hexcess := h.excess_nonneg
  rw [← second_one]
  exact (strictMonoOn_second h.first_mem.2).monotoneOn Set.self_mem_Ici
    (Set.mem_Ici.mpr (by linarith)) (by linarith)

theorem second_eq_iff : second (1 + z.excess rest) first = 1 - √first ↔ z.excess rest = 0 := by
  have hexcess := h.excess_nonneg
  rw [← second_one, (strictMonoOn_second h.first_mem.2).eq_iff_eq
    (Set.mem_Ici.mpr (by linarith)) Set.self_mem_Ici, add_eq_left]

/-- The point of the front with the same first objective. -/
theorem inBox_zeros : z.InBox (first :: List.replicate rest.length 0) := by
  refine ⟨by simpa using h.length_eq, List.forall_mem_cons.mpr ⟨h.first_mem, fun v hv => ?_⟩⟩
  rw [List.eq_of_mem_replicate hv]
  exact ⟨le_rfl, zero_le_one⟩

theorem dominates_of_excess (hne : z.excess rest ≠ 0) :
    z.Dominates (first :: List.replicate rest.length 0) (first :: rest) := by
  have hzero : z.excess (List.replicate rest.length 0) = 0 :=
    h.inBox_zeros.excess_eq_zero_iff.mpr fun v hv => List.eq_of_mem_replicate hv
  have hlt : 1 - √first < second (1 + z.excess rest) first :=
    lt_of_le_of_ne h.le_second fun heq => hne (h.second_eq_iff.mp heq.symm)
  have hobjectives := h.inBox_zeros.objectives_eq
  rw [hzero, add_zero, second_one] at hobjectives
  exact ⟨_, _, hobjectives, h.objectives_eq, le_rfl, hlt.le, .inr hlt⟩

theorem not_dominates (hzero : z.excess rest = 0) {y : List ℝ} (hy : z.InBox y) :
    ¬ z.Dominates y (first :: rest) := by
  obtain ⟨start, others, rfl⟩ := hy.exists_cons
  rintro ⟨p, q, hp, hq, hfirst, hsecond, hbetter⟩
  rw [hy.objectives_eq, Except.ok.injEq] at hp
  rw [h.objectives_eq, hzero, add_zero, second_one, Except.ok.injEq] at hq
  subst hp hq
  -- Below the front of `start` there is nothing, and the front falls.
  have hfront := hy.le_second
  have hroots : √start ≤ √first := Real.sqrt_le_sqrt hfirst
  rcases hbetter with hlt | hlt
  · have hfalls : √start < √first := Real.sqrt_lt_sqrt hy.first_mem.1 hlt
    dsimp only at hsecond
    linarith
  · dsimp only at hlt
    linarith

theorem paretoOptimal_iff : z.ParetoOptimal (first :: rest) ↔ z.excess rest = 0 := by
  constructor
  · intro hoptimal
    by_contra hne
    exact hoptimal _ h.inBox_zeros (h.dominates_of_excess hne)
  · intro hzero y hy
    exact h.not_dominates hzero hy

end InBox

/-- On the unit box objectives and convergence are defined.  The convergence is between zero and
nine, does not depend on the order of the variables after the first, and is zero exactly if they
are.  The second objective is never below the front and on it exactly if the convergence is zero,
and that is also when no point of the box dominates. -/
theorem front (h : z.InBox x) : ∃ first rest f m,
    x = first :: rest ∧ z.objectives x = .ok (first, f) ∧ z.convergence x = .ok m ∧
    0 ≤ m ∧ m ≤ 9 ∧ (∀ other, other.Perm rest → z.convergence (first :: other) = .ok m) ∧
    (m = 0 ↔ ∀ v ∈ rest, v = 0) ∧ 1 - √first ≤ f ∧ (f = 1 - √first ↔ m = 0) ∧
    (z.ParetoOptimal x ↔ m = 0) := by
  obtain ⟨first, rest, rfl⟩ := h.exists_cons
  refine ⟨first, rest, second (1 + z.excess rest) first, z.excess rest, rfl, h.objectives_eq,
    convergence_eq h.length_eq, h.excess_nonneg, h.excess_le, fun other hperm => ?_,
    h.excess_eq_zero_iff, h.le_second, h.second_eq_iff, h.paretoOptimal_iff⟩
  have hlen : (first :: other).length = z.dimension := by
    rw [← h.length_eq, List.length_cons, List.length_cons, hperm.length_eq]
  rw [convergence_eq hlen, excess_perm hperm]

/-- A point with so many variables that their sum is split, and one of them off the front. -/
noncomputable def lonePoint : List ℝ := 1 / 4 :: 1 :: List.replicate 128 0

theorem front_lone : (⟨130, by decide⟩ : Zdt1).InBox lonePoint ∧
    ∃ f m, (⟨130, by decide⟩ : Zdt1).objectives lonePoint = .ok (1 / 4, f) ∧
      (⟨130, by decide⟩ : Zdt1).convergence lonePoint = .ok m ∧ m ≠ 0 ∧ 1 - √(1 / 4) ≤ f ∧
      ¬ (⟨130, by decide⟩ : Zdt1).ParetoOptimal lonePoint := by
  have hbox : (⟨130, by decide⟩ : Zdt1).InBox lonePoint := by
    refine ⟨rfl, fun v hv => ?_⟩
    simp only [lonePoint, List.mem_cons, List.mem_replicate] at hv
    rcases hv with rfl | rfl | ⟨-, rfl⟩ <;> norm_num
  obtain ⟨first, rest, f, m, hpoint, hobjectives, hconvergence, -, -, -, hzero, hle, -, hoptimal⟩ :=
    front hbox
  obtain ⟨rfl, rfl⟩ := List.cons.inj hpoint
  have hm : m ≠ 0 := fun hm => one_ne_zero (hzero.mp hm 1 List.mem_cons_self)
  exact ⟨hbox, f, m, hobjectives, hconvergence, hm, hle, mt hoptimal.mp hm⟩

end Zdt1

end CityTour
