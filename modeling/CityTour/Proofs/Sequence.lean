import Mathlib
import CityTour.Fault

/-! Lists that are worked through with computations that may fail, and lists that are sorted.  The
whole succeeds exactly if every step does, and otherwise the first step that fails decides the
fault. -/

namespace CityTour

section Computations

variable {β γ σ : Type} {l pre post : List β} {b : β} {fault : Fault}

theorem ok_bind (b : β) (f : β → Except Fault γ) : (Except.ok b >>= f) = f b := rfl

theorem bind_eq_ok_iff {x : Except Fault β} {f : β → Except Fault γ} {c : γ} :
    (x >>= f) = .ok c ↔ ∃ b, x = .ok b ∧ f b = .ok c := by
  cases x with
  | error fault => simp [bind, Except.bind]
  | ok b => simp [bind, Except.bind]

theorem mapM_eq_ok_iff {f : β → Except Fault γ} {cs : List γ} :
    l.mapM f = .ok cs ↔ List.Forall₂ (fun b c => f b = .ok c) l cs := by
  induction l generalizing cs with
  | nil =>
    rw [List.mapM_nil, List.forall₂_nil_left_iff]
    constructor
    · intro h
      cases h
      rfl
    · rintro rfl
      rfl
  | cons b l ih =>
    rw [List.mapM_cons, List.forall₂_cons_left_iff]
    constructor
    · intro h
      cases hb : f b with
      | error fault =>
        rw [hb] at h
        cases h
      | ok c =>
        cases hl : l.mapM f with
        | error fault =>
          rw [hb, hl] at h
          cases h
        | ok rest =>
          rw [hb, hl] at h
          cases h
          exact ⟨c, rest, rfl, ih.mp hl, rfl⟩
    · rintro ⟨c, rest, hb, hrest, rfl⟩
      rw [hb, ih.mpr hrest]
      rfl

theorem mapM_ok {f : β → Except Fault γ} {g : β → γ}
    (h : ∀ b ∈ l, f b = .ok (g b)) : l.mapM f = .ok (l.map g) := by
  induction l with
  | nil => rfl
  | cons b l ih =>
    rw [List.mapM_cons, h b List.mem_cons_self, ih fun b hb => h b (List.mem_cons_of_mem _ hb)]
    rfl

/-- Where every step gives a result with a property, the whole gives a list of such results. -/
theorem exists_mapM_ok_forall {f : β → Except Fault γ} {P : γ → Prop}
    (h : ∀ b ∈ l, ∃ c, f b = .ok c ∧ P c) :
    ∃ cs, l.mapM f = .ok cs ∧ cs.length = l.length ∧ ∀ c ∈ cs, P c := by
  induction l with
  | nil => exact ⟨[], rfl, rfl, fun c hc => nomatch hc⟩
  | cons b l ih =>
    obtain ⟨c, hc, hP⟩ := h b List.mem_cons_self
    obtain ⟨cs, hcs, hlen, hall⟩ := ih fun a ha => h a (List.mem_cons_of_mem b ha)
    refine ⟨c :: cs, ?_, congrArg (· + 1) hlen, List.forall_mem_cons.mpr ⟨hP, hall⟩⟩
    rw [List.mapM_cons, hc, hcs]
    rfl

theorem exists_mapM_ok {f : β → Except Fault γ} (h : ∀ b ∈ l, ∃ c, f b = .ok c) :
    ∃ cs, l.mapM f = .ok cs := by
  obtain ⟨cs, hcs, -, -⟩ := exists_mapM_ok_forall (P := fun _ => True) fun b hb =>
    (h b hb).imp fun c hc => ⟨hc, trivial⟩
  exact ⟨cs, hcs⟩

theorem mapM_error {f : β → Except Fault γ} (hpre : ∀ a ∈ pre, ∃ c, f a = .ok c)
    (hb : f b = .error fault) : (pre ++ b :: post).mapM f = .error fault := by
  induction pre with
  | nil =>
    rw [List.nil_append, List.mapM_cons, hb]
    rfl
  | cons a pre ih =>
    obtain ⟨c, hc⟩ := hpre a List.mem_cons_self
    rw [List.cons_append, List.mapM_cons, hc, ih fun a ha => hpre a (List.mem_cons_of_mem _ ha)]
    rfl

theorem exists_foldlM_ok {step : σ → β → Except Fault σ}
    (h : ∀ s, ∀ b ∈ l, ∃ t, step s b = .ok t) (s : σ) : ∃ t, l.foldlM step s = .ok t := by
  induction l generalizing s with
  | nil => exact ⟨s, rfl⟩
  | cons b l ih =>
    obtain ⟨t, ht⟩ := h s b List.mem_cons_self
    rw [List.foldlM_cons, ht]
    exact ih (fun s a ha => h s a (List.mem_cons_of_mem b ha)) t

theorem foldlM_error {step : σ → β → Except Fault σ}
    (hpre : ∀ s, ∀ a ∈ pre, ∃ t, step s a = .ok t) (hb : ∀ s, step s b = .error fault) (s : σ) :
    (pre ++ b :: post).foldlM step s = .error fault := by
  obtain ⟨t, ht⟩ := exists_foldlM_ok hpre s
  rw [List.foldlM_append, ht]
  show (b :: post).foldlM step t = _
  rw [List.foldlM_cons, hb]
  rfl

end Computations

/-! ### Sorting as the choice of an arrangement

A list has one arrangement that is in order, as far as the order tells its entries apart, and
sorting finds it. -/

/-- Sorting a list gives the arrangement of it that is in order. -/
theorem mergeSort_eq_of_perm {β : Type} {le : β → β → Bool}
    (trans : ∀ a b c : β, le a b → le b c → le a c) (total : ∀ a b : β, le a b || le b a)
    {l s : List β} (anti : ∀ a ∈ s, ∀ b ∈ s, le a b → le b a → a = b)
    (hs : s.Pairwise fun a b => le a b) (h : l.Perm s) : l.mergeSort le = s := by
  have hperm := (l.mergeSort_perm le).trans h
  refine List.Perm.eq_of_pairwise (fun a b ha hb => anti a (hperm.subset ha) b hb) ?_ hs hperm
  exact List.pairwise_mergeSort trans total l

/-- Sorting by a key puts the keys in order. -/
theorem pairwise_mergeSort_key {β γ : Type} [LinearOrder γ] (key : β → γ) (l : List β) :
    (l.mergeSort fun a b => decide (key a ≤ key b)).Pairwise fun a b => key a ≤ key b := by
  have hsorted : (l.mergeSort fun a b => decide (key a ≤ key b)).Pairwise fun a b =>
      decide (key a ≤ key b) = true :=
    List.pairwise_mergeSort (fun a b c => by simpa using le_trans)
      (fun a b => by simpa using le_total (key a) (key b)) l
  exact hsorted.imp of_decide_eq_true

end CityTour
