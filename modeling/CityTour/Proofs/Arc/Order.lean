import Mathlib
import CityTour.Proofs.Arc.Degree
import CityTour.Proofs.Sequence
import CityTour.Proofs.Tour

/-! The inequalities on arcs, and the walks along permutations on which they hold.  As many steps as
there are cities go all around the cycle of the first city, so that the cities they miss form cycles
of their own (`mem_iterate_of_apply_mem`).  If they miss none, the permutation is one cycle, the one
along the walk (`formPerm_iterate`). -/

namespace CityTour

open Equiv Function

variable {n : ℕ} (σ : Perm (Fin n)) (a : Fin n) {c : Fin n}

theorem minimalPeriod_pos : 0 < minimalPeriod σ a :=
  minimalPeriod_pos_of_mem_periodicPts (σ.injective.mem_periodicPts a)

theorem minimalPeriod_le : minimalPeriod σ a ≤ n := by
  have hcard := minimalPeriod_le_card (f := σ) (x := a)
  rwa [Fintype.card_fin] at hcard

variable {σ a}

/-- A city from which the permutation leads to a visited city is visited. -/
theorem mem_iterate_of_apply_mem (h : σ c ∈ List.iterate σ a n) : c ∈ List.iterate σ a n := by
  rw [List.mem_iterate] at h ⊢
  obtain ⟨k, hk, hstep⟩ := h
  cases k with
  | zero =>
    -- The step leads to the first city, so it is the last one around the cycle.
    have hpos := minimalPeriod_pos σ a
    have hle := minimalPeriod_le σ a
    refine ⟨minimalPeriod σ a - 1, by omega, σ.injective ?_⟩
    rw [← iterate_succ_apply' σ, Nat.succ_eq_add_one, Nat.sub_add_cancel hpos,
      iterate_minimalPeriod]
    exact hstep
  | succ k =>
    rw [iterate_succ_apply'] at hstep
    exact ⟨k, by omega, σ.injective hstep⟩

theorem iterate_perm (h : ∀ c, c ∈ List.iterate σ a n) :
    (List.iterate σ a n).Perm (List.finRange n) :=
  perm_finRange_of_forall_mem (List.length_iterate ..) h

/-- A walk that visits every city is back at the first one after as many steps as there are
cities. -/
theorem iterate_card_eq_self (h : ∀ c, c ∈ List.iterate σ a n) : σ^[n] a = a := by
  have hnodup := nodup_of_perm_finRange (iterate_perm h)
  have hpos := minimalPeriod_pos σ a
  have hle := minimalPeriod_le σ a
  have hfull : minimalPeriod σ a = n := by
    by_contra hne
    have hlt : minimalPeriod σ a < (List.iterate σ a n).length := by
      rw [List.length_iterate]
      omega
    have heq : (List.iterate σ a n)[minimalPeriod σ a] = (List.iterate σ a n)[0] := by
      rw [List.getElem_iterate, List.getElem_iterate, iterate_minimalPeriod, iterate_zero_apply]
    have := (hnodup.getElem_inj_iff).mp heq
    omega
  have hround := iterate_minimalPeriod (f := σ) (x := a)
  rwa [hfull] at hround

/-- A walk that visits every city goes along the cycle of the permutation. -/
theorem formPerm_iterate (h : ∀ c, c ∈ List.iterate σ a n) :
    (List.iterate σ a n).formPerm = σ := by
  have hnodup := nodup_of_perm_finRange (iterate_perm h)
  refine Equiv.ext fun c => ?_
  obtain ⟨k, hk, rfl⟩ := List.getElem_of_mem (h c)
  rw [List.formPerm_apply_getElem _ hnodup, List.getElem_iterate, List.getElem_iterate,
    ← iterate_succ_apply' σ, List.length_iterate]
  rw [List.length_iterate] at hk
  obtain hlt | hlast := Nat.lt_or_eq_of_le (Nat.succ_le_of_lt hk)
  · rw [Nat.mod_eq_of_lt hlt]
  · rw [← Nat.succ_eq_add_one, hlast, Nat.mod_self, iterate_card_eq_self h]
    rfl

end CityTour

/-! ### The inequalities on arcs in exact arithmetic

They stand in the order of their arcs, which is that of the arcs of a network with one city less
(`map_slot_innerPairs`).  An arc between two cities other than the first has to lead to a greater
label.  Along a permutation of the cities the labels grow up to the return to the first city, and
the cities that the walk misses, all labelled zero, have arcs among themselves; so the inequalities
hold exactly if the walk visits every city (`inequalities_nonpos_iff`). -/

namespace CityTour.Arc

section Exact

open Function

variable {n : ℕ} {x : List ℚ} {u : Vector ℕ n} {i j : Fin n}

theorem mem_innerPairs : (i, j) ∈ innerPairs n ↔ 0 < i.val ∧ 0 < j.val ∧ i ≠ j := by
  simp [innerPairs]

/-- The place of the inequality of an arc between inner cities. -/
def slot (i j : Fin n) : ℕ := (i.val - 1) * (n - 2) + (j.val - 1) - (if i < j then 1 else 0)

theorem slot_succ (i j : Fin n) : slot i.succ j.succ = index i j := by
  simp [slot, index]

/-- The arcs between inner cities are those of a network with one city less. -/
theorem innerPairs_succ (n : ℕ) :
    innerPairs (n + 1) = (arcs n).map fun a => (a.1.succ, a.2.succ) := by
  rw [innerPairs, arcs, List.finRange_succ, List.flatMap_cons, List.flatMap_map, List.map_flatMap]
  simp [List.filter_map, Function.comp_def, Fin.succ_inj]

/-- The inequalities in order are at the places in order, each at one of its own. -/
theorem map_slot_innerPairs (n : ℕ) :
    (innerPairs n).map (fun p => slot p.1 p.2) = List.range ((n - 1) * (n - 2)) := by
  cases n with
  | zero => rfl
  | succ m =>
    rw [innerPairs_succ, List.map_map]
    simp only [Function.comp_def, slot_succ]
    exact map_index_arcs m

/-- There are as many inner pairs as their formula says. -/
theorem length_innerPairs (n : ℕ) : (innerPairs n).length = (n - 1) * (n - 2) := by
  have hcount := congrArg List.length (map_slot_innerPairs n)
  rwa [List.length_map, List.length_range] at hcount

/-- The value of the inequality of an arc under some labels. -/
def orderValue (x : List ℚ) (u : Vector ℕ n) (i j : Fin n) : ℚ :=
  (u.get i : ℚ) - u.get j + (n + 1) * cell x i j - n

/-- The values of the inequalities under some labels. -/
def inequalities (x : List ℚ) (u : Vector ℕ n) : List ℚ :=
  (innerPairs n).map fun p => orderValue x u p.1 p.2

theorem length_inequalities (x : List ℚ) (u : Vector ℕ n) :
    (inequalities x u).length = (n - 1) * (n - 2) := by
  rw [inequalities, List.length_map, length_innerPairs]

theorem inequalities_integral (hx : ∀ v ∈ x, v = 0 ∨ v = 1) (u : Vector ℕ n) :
    ∀ e ∈ inequalities x u, e ∈ (Int.castRingHom ℚ).range := by
  intro e he
  obtain ⟨p, -, rfl⟩ := List.mem_map.mp he
  have hlabels : (u.get p.1 - u.get p.2 : ℚ) ∈ (Int.castRingHom ℚ).range :=
    sub_mem (natCast_mem _ _) (natCast_mem _ _)
  have hslope : (n + 1 : ℚ) ∈ (Int.castRingHom ℚ).range := add_mem (natCast_mem _ _) (one_mem _)
  exact sub_mem (add_mem hlabels (mul_mem hslope (cell_integral hx _ _))) (natCast_mem _ _)

theorem orderEntry_eq (hx : n * (n - 1) ≤ x.length) (h : i ≠ j) :
    orderEntry n u x i j = .ok (orderValue x u i j) := by
  rw [orderEntry, entry_eq hx h, orderValue]
  show Except.ok _ = _
  simp only [Scalar.ofInt_rational]
  push_cast
  rfl

theorem innerCount_natCast (hn : 0 < n) : innerCount n = ((n - 1) * (n - 2) : ℕ) := by
  rw [innerCount]
  obtain rfl | h := Nat.eq_or_lt_of_le (Nat.succ_le_of_lt hn)
  · rfl
  · rw [Nat.cast_mul, Nat.cast_sub hn, Nat.cast_sub h]
    rfl

/-- Values that are computed one after the other fill an array with a slot for each of them. -/
theorem foldlM_put {α β : Type} {l : List β} {f : β → Except Fault α} {vs : List α}
    (h : l.mapM f = .ok vs) (done : List α) {rest : List α} (hrest : rest.length = l.length) :
    l.foldlM (fun (slots : Slots α) b => do slots.put (← f b)) ⟨done ++ rest, done.length⟩ =
      .ok ⟨done ++ vs, (done ++ vs).length⟩ := by
  rw [mapM_eq_ok_iff] at h
  induction h generalizing done rest with
  | nil =>
    rw [List.eq_nil_of_length_eq_zero hrest]
    simp [pure, Except.pure]
  | @cons b v l vs hb _ ih =>
    obtain ⟨r, rest, rfl⟩ := List.exists_cons_of_length_eq_add_one hrest
    have hput : Slots.put ⟨done ++ r :: rest, done.length⟩ v =
        .ok ⟨(done ++ [v]) ++ rest, (done ++ [v]).length⟩ := by
      simp [Slots.put]
    have hstep := ih (done ++ [v]) (Nat.add_right_cancel hrest)
    rw [List.foldlM_cons, hb, ok_bind, hput, ok_bind, hstep, List.append_assoc]
    rfl

/-- There are as many slots as inequalities, so the array of the inequalities is their list. -/
theorem subtour_of_entries {α : Type} [Scalar α] {x entries : List α} (hn : 0 < n)
    (hu : labels n x = .ok u)
    (h : ((innerPairs n).mapM fun p => orderEntry n u x p.1 p.2) = .ok entries) :
    subtour n x = .ok entries := by
  have hcount : (List.replicate (innerCount n).toNat (0 : α)).length = (innerPairs n).length := by
    rw [List.length_replicate, innerCount_natCast hn, Int.toNat_natCast, length_innerPairs]
  have hfill : (innerPairs n).foldlM (fun slots p => do slots.put (← orderEntry n u x p.1 p.2))
      (Slots.zeros (innerCount n).toNat) = .ok ⟨entries, entries.length⟩ :=
    foldlM_put h [] hcount
  rw [subtour, hu, ok_bind, hfill, ok_bind]
  rfl

theorem subtour_eq (hx : n * (n - 1) ≤ x.length) (hn : 0 < n) (hu : labels n x = .ok u) :
    subtour n x = .ok (inequalities x u) :=
  subtour_of_entries hn hu (mapM_ok fun _ hp => orderEntry_eq hx (mem_innerPairs.mp hp).2.2)

/-! ### The order along a permutation -/

variable {σ : Equiv.Perm (Fin n)} {a : Fin n}

/-- Where the inequalities hold, an arc between inner cities leads to a greater label. -/
theorem Follows.label_lt (h : Follows x σ) (hi : 0 < i.val) (hnext : 0 < (σ i).val)
    (hle : ∀ e ∈ inequalities x u, e ≤ 0) : u.get i < u.get (σ i) := by
  have hpair := mem_innerPairs.mpr ⟨hi, hnext, (h.apply_ne i).symm⟩
  have hvalue := hle _ (List.mem_map_of_mem hpair)
  have hcell : cell x i (σ i) = 1 := by rw [h, if_pos rfl]
  rw [orderValue, hcell, mul_one] at hvalue
  have hcast : (u.get i : ℚ) + 1 ≤ u.get (σ i) := by linarith
  exact_mod_cast hcast

/-- Labels up to the count of cities that grow along the arcs between inner cities satisfy the
inequalities. -/
theorem Follows.inequalities_nonpos (h : Follows x σ) (hu : ∀ i, u.get i ≤ n)
    (hgrow : ∀ i, 0 < (σ i).val → u.get i < u.get (σ i)) : ∀ e ∈ inequalities x u, e ≤ 0 := by
  intro e he
  obtain ⟨⟨i, j⟩, hpair, rfl⟩ := List.mem_map.mp he
  obtain ⟨-, hj, -⟩ := mem_innerPairs.mp hpair
  rw [orderValue, h]
  by_cases hnext : σ i = j
  · subst hnext
    have hcast : (u.get i : ℚ) + 1 ≤ u.get (σ i) := by exact_mod_cast hgrow i hj
    rw [if_pos rfl]
    linarith
  · have hcast : (u.get i : ℚ) ≤ n := by exact_mod_cast hu i
    have hpos : (0 : ℚ) ≤ u.get j := Nat.cast_nonneg _
    rw [if_neg hnext]
    linarith

theorem labelsOf_iterate {f : Fin n → Fin n} (h : (List.iterate f a n).Nodup) {k : ℕ}
    (hk : k < n) : (labelsOf (List.iterate f a n)).get (f^[k] a) = k + 1 := by
  have hlabel := labelsOf_getElem h (k := k) (by rwa [List.length_iterate])
  simpa only [List.getElem_iterate] using hlabel

/-- The inequalities of the labels of a walk hold exactly if the walk visits every city. -/
theorem Follows.inequalities_nonpos_iff (h : Follows x σ) (hn : 0 < n) :
    (∀ e ∈ inequalities x (labelsOf (List.iterate σ ⟨0, hn⟩ n)), e ≤ 0) ↔
      ∀ c, c ∈ List.iterate σ ⟨0, hn⟩ n := by
  have hfirst : (⟨0, hn⟩ : Fin n) ∈ List.iterate σ ⟨0, hn⟩ n := List.mem_iterate.mpr ⟨0, hn, rfl⟩
  have hinner : ∀ c, c ∉ List.iterate σ ⟨0, hn⟩ n → 0 < c.val := fun c hc =>
    Nat.pos_of_ne_zero fun hzero => hc (by rwa [show c = ⟨0, hn⟩ from Fin.ext hzero])
  -- A city that the walk misses has label zero, and so has its image, which cannot be greater.
  constructor
  · intro hle c
    by_contra hc
    have hnext : σ c ∉ List.iterate σ ⟨0, hn⟩ n := mt mem_iterate_of_apply_mem hc
    have hlt := h.label_lt (hinner c hc) (hinner _ hnext) hle
    rw [labelsOf_of_not_mem hc, labelsOf_of_not_mem hnext] at hlt
    exact Nat.lt_irrefl 0 hlt
  · intro hall
    have hnodup := nodup_of_perm_finRange (iterate_perm hall)
    refine h.inequalities_nonpos (fun i => ?_) fun i hi => ?_
    · exact (labelsOf_le i).trans_eq (List.length_iterate ..)
    · obtain ⟨k, hk, rfl⟩ := List.mem_iterate.mp (hall i)
      have hlast : k + 1 ≠ n := by
        rintro heq
        rw [← iterate_succ_apply' σ, Nat.succ_eq_add_one, heq, iterate_card_eq_self hall] at hi
        exact Nat.lt_irrefl 0 hi
      have hlabel := labelsOf_iterate hnodup (k := k + 1) (by omega)
      simp only [iterate_succ_apply'] at hlabel
      rw [labelsOf_iterate hnodup hk, hlabel]
      exact Nat.lt_succ_self _

end Exact

/-! ### Rows that are long enough

Every place that the constraints read is one of the places of the arcs, so that they are defined
whatever stands there, numbers or not, and there are as many of them as their formula says. -/

section AnyNumbers

variable {α : Type} {n : ℕ} {x : List α}

theorem exists_entry (hx : n * (n - 1) ≤ x.length) {i j : Fin n} (h : i ≠ j) :
    ∃ v, entry x i j = .ok v := by
  have hlt : index i j < x.length := (index_lt h).trans_le hx
  exact ⟨x[index i j], entry_eq_ok h (List.getElem?_eq_getElem hlt)⟩

variable [Scalar α]

theorem exists_sumOver {i : Fin n} {term : Fin n → Except Fault α}
    (h : ∀ j, j ≠ i → ∃ v, term j = .ok v) : ∃ total, sumOver i term = .ok total := by
  unfold sumOver
  apply exists_foldlM_ok
  intro total j _
  by_cases hj : j = i
  · exact ⟨total, if_pos hj⟩
  · obtain ⟨v, hv⟩ := h j hj
    refine ⟨total + v, ?_⟩
    rw [if_neg hj, hv]
    rfl

theorem exists_degree (hx : n * (n - 1) ≤ x.length) :
    ∃ entries, degree n x = .ok entries ∧ entries.length = 2 * n := by
  have hout : ∃ out, ((List.finRange n).mapM fun i => sumOver i fun j => entry x i j) =
      .ok out := by
    apply exists_mapM_ok
    intro i _
    exact exists_sumOver fun j hj => exists_entry hx (Ne.symm hj)
  have hinto : ∃ into, ((List.finRange n).mapM fun i => sumOver i fun j => entry x j i) =
      .ok into := by
    apply exists_mapM_ok
    intro i _
    exact exists_sumOver fun j hj => exists_entry hx hj
  obtain ⟨out, hout⟩ := hout
  obtain ⟨into, hinto⟩ := hinto
  have hcount := (mapM_eq_ok_iff.mp hout).length_eq
  have hcount' := (mapM_eq_ok_iff.mp hinto).length_eq
  rw [List.length_finRange] at hcount hcount'
  refine ⟨(out ++ into).map (· - 1), ?_, ?_⟩
  · rw [degree, hout, ok_bind, hinto, ok_bind]
    rfl
  · rw [List.length_map, List.length_append, ← hcount, ← hcount', Nat.two_mul]

theorem exists_subtour (hx : n * (n - 1) ≤ x.length) (hn : 0 < n) :
    ∃ entries, subtour n x = .ok entries ∧ entries.length = (n - 1) * (n - 2) := by
  obtain ⟨visits, hwalk⟩ := exists_walk hx hn
  obtain ⟨entries, hentries⟩ := exists_mapM_ok (l := innerPairs n)
      (f := fun p => orderEntry n (labelsOf visits) x p.1 p.2) fun p hp => by
    obtain ⟨v, hv⟩ := exists_entry hx (mem_innerPairs.mp hp).2.2
    rw [orderEntry, hv]
    exact ⟨_, rfl⟩
  refine ⟨entries, subtour_of_entries hn (labels_of_walk hwalk) hentries, ?_⟩
  rw [← (mapM_eq_ok_iff.mp hentries).length_eq, length_innerPairs]

/-- The constraints of a long enough row never fail. -/
theorem exists_constraints (hx : n * (n - 1) ≤ x.length) (hn : 0 < n) :
    ∃ entries, constraints n x = .ok entries ∧
      entries.length = 2 * n + (n - 1) * (n - 2) := by
  obtain ⟨equations, hdegree, hcount⟩ := exists_degree hx
  obtain ⟨inequalities, hsubtour, hcount'⟩ := exists_subtour hx hn
  refine ⟨equations ++ inequalities, ?_, ?_⟩
  · rw [constraints, hdegree, ok_bind, hsubtour]
    rfl
  · rw [List.length_append, hcount, hcount']

end AnyNumbers

end CityTour.Arc
