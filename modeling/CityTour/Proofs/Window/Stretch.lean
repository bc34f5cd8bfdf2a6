import Mathlib
import CityTour.Proofs.Scalar
import CityTour.Window

/-! Windows in exact arithmetic: the stretches of a closed walk, and the best of some windows.
`stretch` is the window between two positions with its true value and the budget that its edges
truly leave; `grow` and `shrink` move one end of a window and update both numbers, and
`stretch_grow` and `stretch_shrink` say that they keep them true.  A stretch is worth no less than a
part of it, and moving both ends once around the walk changes nothing. -/

namespace CityTour.Window

section Ends

variable {α : Type} [Scalar α] (v len : ℕ → α)

/-- The window with its right end moved on by one. -/
def grow (w : Window α) : Window α :=
  ⟨w.left, w.right + 1, w.value + v (w.right + 1), w.saved - len w.right⟩

/-- The window with its left end moved on by one. -/
def shrink (w : Window α) : Window α :=
  ⟨w.left + 1, w.right, w.value - v w.left, w.saved + len w.left⟩

end Ends

variable (v len : ℕ → ℚ) (budget : ℚ)

/-- The window from position `l` to position `r`, with the sum of the values and the part of the
budget that the sum of the edges leaves. -/
def stretch (l r : ℕ) : Window ℚ :=
  ⟨l, r, ∑ i ∈ Finset.Ico l (r + 1), v i, budget - ∑ i ∈ Finset.Ico l r, len i⟩

theorem stretch_self (l : ℕ) : stretch v len budget l l = ⟨l, l, v l, budget⟩ := by
  simp [stretch]

theorem stretch_grow {l r : ℕ} (h : l ≤ r) :
    (stretch v len budget l r).grow v len = stretch v len budget l (r + 1) := by
  have hv := Finset.sum_Ico_succ_top (show l ≤ r + 1 by omega) v
  have hl := Finset.sum_Ico_succ_top h len
  simp only [stretch, grow, mk.injEq, true_and]
  refine ⟨hv.symm, ?_⟩
  rw [hl]
  exact sub_sub _ _ _

theorem stretch_shrink {l r : ℕ} (h : l < r) :
    (stretch v len budget l r).shrink v len = stretch v len budget (l + 1) r := by
  have hv := Finset.sum_eq_sum_Ico_succ_bot (show l < r + 1 by omega) v
  have hl := Finset.sum_eq_sum_Ico_succ_bot h len
  simp only [stretch, shrink, mk.injEq, true_and]
  refine ⟨?_, ?_⟩
  · rw [hv]
    exact add_sub_cancel_left _ _
  · rw [hl]
    show budget - (len l + _) + len l = _
    ring

variable {v len budget}

/-- A part of a stretch is worth no more than the stretch. -/
theorem stretch_value_le (hv : ∀ i, 0 ≤ v i) {l r s t : ℕ} (hl : l ≤ s) (hr : t ≤ r) :
    (stretch v len budget s t).value ≤ (stretch v len budget l r).value :=
  Finset.sum_le_sum_of_subset_of_nonneg (Finset.Ico_subset_Ico hl (by omega)) fun i _ _ => hv i

/-- Where every city is worth something, a proper part of a stretch is worth less than the
stretch. -/
theorem stretch_value_lt (hv : ∀ i, 0 < v i) {l r s t : ℕ} (hl : l ≤ s) (hr : t ≤ r)
    (hst : s ≤ t) (hne : l < s ∨ t < r) :
    (stretch v len budget s t).value < (stretch v len budget l r).value := by
  have hsub := Finset.Ico_subset_Ico hl (show t + 1 ≤ r + 1 by omega)
  rcases hne with h | h
  · exact Finset.sum_lt_sum_of_subset hsub (i := l) (by simp; omega) (by simp; omega) (hv l)
      fun i _ _ => (hv i).le
  · exact Finset.sum_lt_sum_of_subset hsub (i := r) (by simp; omega) (by simp; omega) (hv r)
      fun i _ _ => (hv i).le

/-- A longer stretch from the same position leaves no more. -/
theorem stretch_saved_le (hlen : ∀ i, 0 ≤ len i) {l s t : ℕ} (h : s ≤ t) :
    (stretch v len budget l t).saved ≤ (stretch v len budget l s).saved := by
  have := Finset.sum_le_sum_of_subset_of_nonneg
    (Finset.Ico_subset_Ico_right (a := l) h) fun i _ _ => hlen i
  simp only [stretch]
  linarith

section Closed

variable {n : ℕ}

/-- Both ends moved once around the walk. -/
theorem stretch_add_period (hv : ∀ i, v (i + n) = v i) (hlen : ∀ i, len (i + n) = len i)
    (l r : ℕ) : stretch v len budget (l + n) (r + n) =
      { stretch v len budget l r with left := l + n, right := r + n } := by
  simp only [stretch, mk.injEq, true_and]
  refine ⟨?_, ?_⟩
  · rw [show r + n + 1 = r + 1 + n by omega, ← Finset.sum_Ico_add',
      Finset.sum_congr rfl fun i _ => hv i]
  · rw [← Finset.sum_Ico_add', Finset.sum_congr rfl fun i _ => hlen i]

/-- Every stretch once around the walk has the same value. -/
theorem sum_Ico_period (hv : ∀ i, v (i + n) = v i) (l : ℕ) :
    ∑ i ∈ Finset.Ico l (l + n), v i = ∑ i ∈ Finset.range n, v i := by
  induction l with
  | zero => simp
  | succ l ih =>
    have htop := Finset.sum_Ico_succ_top (show l ≤ l + n by omega) v
    have hbot := Finset.sum_eq_sum_Ico_succ_bot (show l < l + n + 1 by omega) v
    rw [hv l] at htop
    rw [show l + 1 + n = l + n + 1 by omega]
    linarith

/-- A stretch over all positions of the walk is worth at least as much as any other. -/
theorem stretch_value_le_full (hv : ∀ i, v (i + n) = v i) (h0 : ∀ i, 0 ≤ v i) {l r s t : ℕ}
    (hr : r + 1 = l + n) (ht : t < s + n) :
    (stretch v len budget s t).value ≤ (stretch v len budget l r).value := by
  calc (stretch v len budget s t).value
      ≤ ∑ i ∈ Finset.Ico s (s + n), v i :=
        Finset.sum_le_sum_of_subset_of_nonneg (Finset.Ico_subset_Ico_right (by omega))
          fun i _ _ => h0 i
    _ = ∑ i ∈ Finset.Ico l (l + n), v i := by rw [sum_Ico_period hv, sum_Ico_period hv]
    _ = (stretch v len budget l r).value := by rw [← hr]; rfl

end Closed

/-! ### The best of some windows

In exact arithmetic a window beats another when it comes later in the lexicographic order of value
and budget left, which is `merit`.  `best` picks one of the windows (`best_mem`), and none of them
has more merit (`merit_le_best`). -/

section Choice

variable {α : Type} [Scalar α]

theorem best_cons (first w : Window α) (later : List (Window α)) :
    best first (w :: later) = best (if w.beats first then w else first) later := rfl

/-- The best window is one of the windows. -/
theorem best_mem (first : Window α) (later : List (Window α)) :
    best first later ∈ first :: later := by
  induction later generalizing first with
  | nil => exact List.mem_singleton.mpr rfl
  | cons w later ih =>
    rw [best_cons]
    split
    · exact List.mem_cons_of_mem first (ih w)
    · rcases List.mem_cons.mp (ih first) with h | h
      · rw [h]
        exact List.mem_cons_self
      · exact List.mem_cons_of_mem first (List.mem_cons_of_mem w h)

end Choice

/-- What a window is judged by: its value, and then the budget that it leaves. -/
def merit (w : Window ℚ) : ℚ ×ₗ ℚ := toLex (w.value, w.saved)

theorem merit_le_iff {a b : Window ℚ} :
    a.merit ≤ b.merit ↔ a.value < b.value ∨ a.value = b.value ∧ a.saved ≤ b.saved :=
  Prod.Lex.toLex_le_toLex

theorem value_le_of_merit_le {a b : Window ℚ} (h : a.merit ≤ b.merit) : a.value ≤ b.value := by
  rcases merit_le_iff.mp h with hlt | ⟨heq, -⟩
  · exact hlt.le
  · exact heq.le

theorem beats_iff {w best : Window ℚ} : w.beats best = true ↔ best.merit < w.merit := by
  simp only [beats, merit, Prod.Lex.toLex_lt_toLex, Bool.or_eq_true, Bool.and_eq_true,
    decide_eq_true_eq, beq_iff_eq]
  rw [eq_comm (a := w.value)]

/-- A window is the first one of the greatest merit: those before it have less, and those after it
have no more. -/
def FirstBest (ws : List (Window ℚ)) (z : Window ℚ) : Prop :=
  ∃ before after, ws = before ++ z :: after ∧ (∀ w ∈ before, w.merit < z.merit) ∧
    ∀ w ∈ after, w.merit ≤ z.merit

theorem FirstBest.merit_le {ws : List (Window ℚ)} {z : Window ℚ} (h : FirstBest ws z) :
    ∀ w ∈ ws, w.merit ≤ z.merit := by
  obtain ⟨before, after, rfl, hbefore, hafter⟩ := h
  intro w hw
  rcases List.mem_append.mp hw with hw | hw
  · exact (hbefore w hw).le
  · rcases List.mem_cons.mp hw with rfl | hw
    · exact le_rfl
    · exact hafter w hw

/-- One more window at the end changes the choice only if it beats it. -/
theorem FirstBest.snoc {ws : List (Window ℚ)} {z : Window ℚ} (h : FirstBest ws z) (w : Window ℚ) :
    FirstBest (ws ++ [w]) (if w.beats z then w else z) := by
  split
  · rename_i hbeats
    refine ⟨ws, [], rfl, ?_, by simp⟩
    intro y hy
    exact (h.merit_le y hy).trans_lt (beats_iff.mp hbeats)
  · rename_i hbeats
    have hle : w.merit ≤ z.merit := not_lt.mp fun h => hbeats (beats_iff.mpr h)
    obtain ⟨before, after, rfl, hbefore, hafter⟩ := h
    refine ⟨before, after ++ [w], by simp, hbefore, ?_⟩
    intro y hy
    rcases List.mem_append.mp hy with hy | hy
    · exact hafter y hy
    · rwa [List.mem_singleton.mp hy]

/-- The best window is the first one of the greatest merit. -/
theorem firstBest_best (first : Window ℚ) (later : List (Window ℚ)) :
    FirstBest (first :: later) (best first later) := by
  -- The list is read from its end, since the choice after one more window depends on the one
  -- before.
  induction later using List.reverseRecOn with
  | nil => exact ⟨[], [], rfl, by simp, by simp⟩
  | append_singleton later w ih =>
    have hsnoc := ih.snoc w
    rw [best, List.foldl_append]
    exact hsnoc

/-- No window has more merit than the best one. -/
theorem merit_le_best {first : Window ℚ} {later : List (Window ℚ)} :
    ∀ w ∈ first :: later, w.merit ≤ (best first later).merit :=
  (firstBest_best first later).merit_le

/-- Where every city is worth something, a part of a stretch has no more merit than the stretch. -/
theorem merit_stretch_le {v len : ℕ → ℚ} {budget : ℚ} (hv : ∀ i, 0 < v i) {l r s t : ℕ}
    (hl : l ≤ s) (hr : t ≤ r) (hst : s ≤ t) :
    (stretch v len budget s t).merit ≤ (stretch v len budget l r).merit := by
  by_cases hne : l < s ∨ t < r
  · exact merit_le_iff.mpr (.inl (stretch_value_lt hv hl hr hst hne))
  · obtain ⟨rfl, rfl⟩ : l = s ∧ r = t := by omega
    exact le_rfl

end CityTour.Window
