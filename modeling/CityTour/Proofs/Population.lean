import Mathlib
import CityTour.Problem.Basic
import CityTour.Proofs.Outcome

/-! Many chromosomes at once.  Working through a list batch by batch, and letting workers finish its
tasks in any order, both give what working through it one by one gives (`inBatches_eq_mapM`,
`collect_finished`).  A chromosome that has a score has the same score when its length is added up
from the rolled copy of its tour, so a population has the scores of its chromosomes, and the first
chromosome of a wrong size decides its refusal. -/

namespace CityTour

section Pool

variable {β γ : Type} (f : β → Except Fault γ)

theorem inBatches_eq_mapM {size : ℕ} (h : 0 < size) (xs : List β) :
    inBatches size h f xs = xs.mapM f := by
  induction xs using inBatches.induct size h with
  | case1 =>
    rw [inBatches, List.mapM_nil]
    rfl
  | case2 x rest ih =>
    have hsplit := congrArg (List.mapM f) (List.take_append_drop size (x :: rest))
    rw [inBatches, ih, ← hsplit, List.mapM_append]

/-- The slots of some tasks after a worker has finished task `i`: its result is in its own slot. -/
def finish (xs : List β) (slots : List (Option (Except Fault γ))) (i : ℕ) :
    List (Option (Except Fault γ)) := slots.set i (xs[i]?.map f)

/-- The slots of some tasks, all of them empty before workers finish the tasks in the given order.
-/
def finished (xs : List β) (order : List ℕ) : List (Option (Except Fault γ)) :=
  order.foldl (finish f xs) (List.replicate xs.length none)

/-- The results in the order of the slots once all of them are filled, or the first failure. -/
def collect (slots : List (Option (Except Fault γ))) : Option (Except Fault (List γ)) :=
  (slots.mapM id).map fun results => results.mapM id

variable {f} {xs : List β}

/-- To finish a task fills its slot and leaves all others. -/
theorem getElem?_finish {slots : List (Option (Except Fault γ))} (hlen : slots.length = xs.length)
    (i k : ℕ) : (finish f xs slots i)[k]? =
      if i = k then (xs[k]?).map fun x => some (f x) else slots[k]? := by
  unfold finish
  rw [List.getElem?_set]
  by_cases hik : i = k
  · subst hik
    rw [if_pos rfl, if_pos rfl]
    by_cases hi : i < slots.length
    · rw [if_pos hi, List.getElem?_eq_getElem (hi.trans_eq hlen)]
      rfl
    · rw [if_neg hi, List.getElem?_eq_none (by omega)]
      rfl
  · rw [if_neg hik, if_neg hik]

/-- After a run of the workers, the slots of the finished tasks are filled, and no others. -/
theorem getElem?_foldl_finish (order : List ℕ) {slots : List (Option (Except Fault γ))}
    (hlen : slots.length = xs.length) (k : ℕ) : (order.foldl (finish f xs) slots)[k]? =
      if k ∈ order then (xs[k]?).map fun x => some (f x) else slots[k]? := by
  induction order generalizing slots with
  | nil => simp
  | cons i order ih =>
    have hstep : (finish f xs slots i).length = xs.length := by
      rw [finish, List.length_set, hlen]
    rw [List.foldl_cons, ih hstep, getElem?_finish hlen]
    by_cases hk : k ∈ order
    · rw [if_pos hk, if_pos (List.mem_cons_of_mem i hk)]
    · rw [if_neg hk]
      by_cases hik : i = k
      · rw [if_pos hik, if_pos (hik ▸ List.mem_cons_self)]
      · rw [if_neg hik, if_neg]
        rw [List.mem_cons]
        rintro (rfl | hmem)
        · exact hik rfl
        · exact hk hmem

/-- However the workers finish the tasks, the results are collected as if they had been worked
through one by one. -/
theorem collect_finished {order : List ℕ} (h : order.Perm (List.range xs.length)) :
    collect (finished f xs order) = some (xs.mapM f) := by
  have hslots : finished f xs order = xs.map fun x => some (f x) := by
    apply List.ext_getElem?
    intro k
    rw [finished, getElem?_foldl_finish order List.length_replicate, List.getElem?_map]
    by_cases hk : k < xs.length
    · rw [if_pos (h.mem_iff.mpr (List.mem_range.mpr hk))]
    · rw [List.getElem?_eq_none (by omega)]
      simp [hk]
  have hresults : (xs.map fun x => some (f x)).mapM id = some (xs.map f) := by
    rw [List.mapM_map]
    exact List.mapM_pure
  rw [collect, hslots, hresults, Option.map_some, List.mapM_map]
  rfl

end Pool

/-! ### Scores -/

/-- Two scores that tell the same, but for the length of the tour. -/
structure Score.Agrees {α : Type} (s t : Score α) : Prop where
  fitness : s.fitness = t.fitness
  value : s.value = t.value
  saved : s.saved = t.saved
  start : s.start = t.start
  stop : s.stop = t.stop
  feasible : s.feasible = t.feasible

theorem Score.Agrees.refl {α : Type} (s : Score α) : s.Agrees s := ⟨rfl, rfl, rfl, rfl, rfl, rfl⟩

theorem Network.rolledLength_eq {α : Type} [Scalar α] {n : ℕ} (N : Network α n) {tour : List ℤ}
    (h : NamesCities n tour) :
    N.rolledLength (Route.ofTour n tour) = N.closedLength (Route.ofTour n tour) := by
  have hindices : (Route.ofTour n tour).any Lookup.isUnusable = false := by
    rw [List.any_eq_false]
    intro y hy
    obtain ⟨i, hi, rfl⟩ := List.mem_map.mp hy
    obtain ⟨c, hc⟩ := exists_cityAt?_eq (h i hi)
    rw [Lookup.ofInt, hc]
    exact Bool.false_ne_true
  rw [rolledLength, hindices, if_neg Bool.false_ne_true, closedLength, closedSum_eq_rolledSum]

namespace Problem

section AnyNumbers

variable {α : Type} [Scalar α] (p : Problem α) {x : List α} {s : Score α}

/-- Only a chromosome that is read as a tour whose entries name cities has a score. -/
theorem exists_decode_of_evaluate (h : p.evaluate x = .ok s) :
    ∃ tour, p.decode x = .ok tour ∧ tour.length = p.size ∧ NamesCities p.size tour := by
  cases hdecode : p.decode x with
  | error fault =>
    rw [evaluate, p.scoreWith_of_decode_error hdecode] at h
    cases h
  | ok tour =>
    by_cases hlen : tour.length = p.size
    · cases hstray : tour.find? (strays p.size) with
      | some i =>
        rw [p.evaluate_of_find hdecode hlen hstray] at h
        cases h
      | none =>
        refine ⟨tour, rfl, hlen, ?_⟩
        intro i hi
        exact strays_eq_false.mp (by simpa using List.find?_eq_none.mp hstray i hi)
    · rw [evaluate, p.scoreWith_of_length_ne hdecode hlen] at h
      cases h

theorem evaluateRolled_eq (h : p.evaluate x = .ok s) : p.evaluateRolled x = .ok s := by
  obtain ⟨tour, hdecode, -, hnames⟩ := p.exists_decode_of_evaluate h
  rw [← h, evaluateRolled, evaluate, scoreWith, scoreWith, hdecode, ok_bind, ok_bind]
  simp only [p.network.rolledLength_eq hnames]

/-- Only a chromosome of the declared size has a score. -/
theorem length_of_evaluate (h : p.evaluate x = .ok s) :
    (x.length : ℤ) = p.encoding.dimension p.size := by
  obtain ⟨tour, hdecode, hlen, -⟩ := p.exists_decode_of_evaluate h
  by_cases he : p.encoding = .cities
  · rw [decode, he] at hdecode
    rw [he, (mapM_eq_ok_iff.mp hdecode).length_eq, hlen]
    rfl
  · by_contra hne
    have hrefused := Encoding.decode_of_length_ne he hne
    cases hrefused.symm.trans hdecode

theorem evaluateAll_eq_mapM (workers : ℤ) (xs : List (List α)) :
    p.evaluateAll workers xs = xs.mapM p.evaluateRolled := inBatches_eq_mapM _ _ xs

/-- Workers that finish the chromosomes in any order give the scores of the population. -/
theorem collect_eq_evaluateAll (workers : ℤ) {xs : List (List α)} {order : List ℕ}
    (h : order.Perm (List.range xs.length)) :
    collect (finished p.evaluateRolled xs order) = some (p.evaluateAll workers xs) := by
  rw [evaluateAll_eq_mapM]
  exact collect_finished h

/-- A population of chromosomes that have scores has these scores, in the same order. -/
theorem evaluateAll_of_evaluate (workers : ℤ) {xs : List (List α)}
    (h : ∀ x ∈ xs, ∃ s, p.evaluate x = .ok s) : ∃ scores,
      p.evaluateAll workers xs = .ok scores ∧
      List.Forall₂ (fun x s => p.evaluate x = .ok s) xs scores := by
  obtain ⟨scores, hscores⟩ := exists_mapM_ok h
  have hpairs := mapM_eq_ok_iff.mp hscores
  refine ⟨scores, ?_, hpairs⟩
  rw [evaluateAll_eq_mapM, mapM_eq_ok_iff]
  exact hpairs.imp fun x s hs => p.evaluateRolled_eq hs

/-- The scores of a population tell what the scores of its chromosomes tell. -/
theorem evaluateAll_agrees (workers : ℤ) {xs : List (List α)}
    (h : ∀ x ∈ xs, ∃ s, p.evaluate x = .ok s) : ∃ scores,
      p.evaluateAll workers xs = .ok scores ∧
      List.Forall₂ (fun x s => ∃ t, p.evaluate x = .ok t ∧ s.Agrees t) xs scores := by
  obtain ⟨scores, hscores, hpairs⟩ := p.evaluateAll_of_evaluate workers h
  exact ⟨scores, hscores, hpairs.imp fun x s hs => ⟨s, hs, .refl s⟩⟩

/-- The refusal of a chromosome of a wrong size: cities are refused as a tour, and arcs and keys as
a row of numbers. -/
def sizeRefusal (x : List α) : Refusal :=
  match p.encoding with
  | .cities => .tourLength
  | e => .chromosomeSize e.title (e.dimension p.size) x.length

end AnyNumbers

variable (p : Problem Float) {x : List Float}

/-- A chromosome of finite entries and a wrong size is refused, however the tour would have been
measured. -/
theorem scoreWith_of_wrong_size {measure : Route p.size → Except Fault Float}
    (hsize : (x.length : ℤ) ≠ p.encoding.dimension p.size) (hfinite : ∀ v ∈ x, v.isFinite = true) :
    p.scoreWith measure x = refuse (p.sizeRefusal x) := by
  by_cases he : p.encoding = .cities
  · have hdecode : p.decode x = .ok ((x.filterMap Double.value?).map Double.towardZero) := by
      rw [decode, he, Encoding.decode_cities_of_finite hfinite]
    have hlen : ((x.filterMap Double.value?).map Double.towardZero).length ≠ p.size := by
      rw [List.length_map, Encoding.length_filterMap_value hfinite]
      rw [he] at hsize
      exact fun h => hsize (congrArg Int.ofNat h)
    rw [p.scoreWith_of_length_ne hdecode hlen, sizeRefusal, he]
  · have hrefusal : p.sizeRefusal x = .chromosomeSize p.encoding.title
        (p.encoding.dimension p.size) x.length := by
      unfold sizeRefusal
      cases h : p.encoding with
      | full => rfl
      | randomKeys => rfl
      | cities => exact absurd h he
    rw [hrefusal]
    exact p.scoreWith_of_decode_error (Encoding.decode_of_length_ne he hsize)

/-- Among chromosomes that have scores or a wrong size, the first of a wrong size decides. -/
theorem evaluateAll_of_wrong_size (workers : ℤ) {xs : List (List Float)}
    (hxs : ∀ x ∈ xs, (∃ s, p.evaluate x = .ok s) ∨
      (x.length : ℤ) ≠ p.encoding.dimension p.size ∧ ∀ v ∈ x, v.isFinite = true)
    (hfirst : (xs.find? fun x => decide ((x.length : ℤ) ≠ p.encoding.dimension p.size)) = some x) :
    p.evaluateAll workers xs = refuse (p.sizeRefusal x) ∧
      p.evaluate x = refuse (p.sizeRefusal x) := by
  obtain ⟨hsize, pre, post, rfl, hpre⟩ := List.find?_eq_some_iff_append.mp hfirst
  replace hsize := of_decide_eq_true hsize
  have hfinite : ∀ v ∈ x, v.isFinite = true := by
    rcases hxs x (by simp) with ⟨s, hs⟩ | ⟨-, hfinite⟩
    · exact absurd (p.length_of_evaluate hs) hsize
    · exact hfinite
  constructor
  · rw [evaluateAll_eq_mapM]
    apply mapM_error
    · intro y hy
      rcases hxs y (List.mem_append_left _ hy) with ⟨s, hs⟩ | ⟨hne, -⟩
      · exact ⟨s, p.evaluateRolled_eq hs⟩
      · exact absurd hne (by simpa using hpre y hy)
    · exact p.scoreWith_of_wrong_size hsize hfinite
  · exact p.scoreWith_of_wrong_size hsize hfinite

/-- A population is scored for any count of workers, in whatever order they finish.  If all of its
chromosomes have scores, it has one for each of them, in their order, which agrees with that of the
chromosome alone.  Only the sums behind the lengths may be rounded in different ways; in exact
arithmetic they are the same for every tour whose entries name cities, from either end.  If there
are chromosomes of a wrong size among them, the first of these decides the refusal. -/
theorem evaluateAll_eq_evaluate (workers : ℤ) :
    (∀ (α : Type) [Scalar α] (p : Problem α) (xs : List (List α)) (order : List ℕ),
      order.Perm (List.range xs.length) →
      collect (finished p.evaluateRolled xs order) = some (p.evaluateAll workers xs)) ∧
    (∀ (p : Problem Float) (xs : List (List Float)), (∀ x ∈ xs, ∃ s, p.evaluate x = .ok s) →
      ∃ scores, p.evaluateAll workers xs = .ok scores ∧
        List.Forall₂ (fun x s => ∃ t, p.evaluate x = .ok t ∧ s.Agrees t) xs scores) ∧
    (∀ (p : Problem ℚ) (xs : List (List ℚ)), (∀ x ∈ xs, ∃ s, p.evaluate x = .ok s) →
      ∃ scores, p.evaluateAll workers xs = .ok scores ∧
        List.Forall₂ (fun x s => p.evaluate x = .ok s) xs scores) ∧
    (∀ (n : ℕ) (N : Network ℚ n) (tour : List ℤ), NamesCities n tour →
      N.rolledLength (Route.ofTour n tour) = N.closedLength (Route.ofTour n tour)) ∧
    (∀ (p : Problem Float) (xs : List (List Float)) (x : List Float),
      (∀ y ∈ xs, (∃ s, p.evaluate y = .ok s) ∨
        (y.length : ℤ) ≠ p.encoding.dimension p.size ∧ ∀ v ∈ y, v.isFinite = true) →
      (xs.find? fun y => decide ((y.length : ℤ) ≠ p.encoding.dimension p.size)) = some x →
      p.evaluateAll workers xs = refuse (p.sizeRefusal x) ∧
        p.evaluate x = refuse (p.sizeRefusal x)) := by
  refine ⟨?_, ?_, ?_, ?_, ?_⟩
  · intro α _ p xs order horder
    exact p.collect_eq_evaluateAll workers horder
  · intro p xs h
    exact p.evaluateAll_agrees workers h
  · intro p xs h
    exact p.evaluateAll_of_evaluate workers h
  · intro n N tour h
    exact N.rolledLength_eq h
  · intro p xs x hxs hfirst
    exact p.evaluateAll_of_wrong_size workers hxs hfirst

/-- Three cities, scored by fewer than no workers: a tour that visits the last city twice, and a
list of two cities. -/
theorem evaluateAll_eq_evaluate_triangle :
    (∃ s, (⟨3, Network.triangle, .cities⟩ : Problem Float).evaluate [-1, 0, 2] = .ok s) ∧
    (∃ scores, (⟨3, Network.triangle, .cities⟩ : Problem Float).evaluateAll (-2)
      [[-1, 0, 2], [-1, 0, 2]] = .ok scores ∧ scores.length = 2) ∧
    (⟨3, Network.triangle, .cities⟩ : Problem Float).evaluateAll (-2)
      [[-1, 0, 2], [1, 0]] = refuse .tourLength := by
  have hfinite : ∀ v ∈ ([-1, 0, 2] : List Float), v.isFinite = true := by decide +kernel
  have hcut : (([-1, 0, 2] : List Float).filterMap Double.value?).map Double.towardZero =
      [-1, 0, 2] := by
    decide +kernel
  have hdecode := Encoding.decode_cities_of_finite (n := 3) hfinite
  rw [hcut] at hdecode
  have hscore : ∃ s, (⟨3, Network.triangle, .cities⟩ : Problem Float).evaluate [-1, 0, 2] =
      .ok s :=
    exists_evaluate ⟨3, Network.triangle, .cities⟩ hdecode rfl (by decide) (by intro h; cases h)
  obtain ⟨-, hall, -, -, hwrong⟩ := evaluateAll_eq_evaluate (-2)
  obtain ⟨scores, hscores, hpairs⟩ :=
    hall ⟨3, Network.triangle, .cities⟩ [[-1, 0, 2], [-1, 0, 2]] (by
      intro x hx
      simp only [List.mem_cons, List.not_mem_nil, or_false, or_self] at hx
      subst hx
      exact hscore)
  refine ⟨hscore, ⟨scores, hscores, hpairs.length_eq.symm⟩, ?_⟩
  refine (hwrong ⟨3, Network.triangle, .cities⟩ [[-1, 0, 2], [1, 0]] [1, 0] ?_ ?_).1
  · intro y hy
    simp only [List.mem_cons, List.not_mem_nil, or_false] at hy
    rcases hy with rfl | rfl
    · exact .inl hscore
    · exact .inr ⟨by decide, by decide +kernel⟩
  · rfl

end Problem

end CityTour
