import Mathlib
import CityTour.Proofs.Sequence
import CityTour.Proofs.Window.Stretch

/-! The scan of a walk, step by step.  `Run` says which windows the scan lists after a window, one
rule for each thing that it can do next; `scanFrom_run` says that the scan of a walk that never
fails follows these rules.  In exact arithmetic every listed window is a stretch within the budget
(`Run.sound`), and every stretch shorter than the budget lies in a listed window, unless a listed
window goes around the whole walk (`Run.covers`). -/

namespace CityTour.Window

section Rules

variable {α : Type} [Scalar α]

/-- The windows that the scan of a closed walk with `n` positions lists after a window. -/
inductive Run (n : ℕ) (v len : ℕ → α) : Window α → Phase → List (Window α) → Prop
  /-- The left end has passed every position. -/
  | passed {w : Window α} {phase : Phase} : w.left = n → Run n v len w phase []
  /-- One more edge would close the window around the walk. -/
  | closed {w : Window α} : w.right + 1 = w.left + n → Run n v len w .growing []
  | overdrawn {w : Window α} {ws : List (Window α)} : w.right + 1 < w.left + n →
      (w.grow v len).saved < 0 → Run n v len (w.grow v len) .shrinking ws →
      Run n v len w .growing ws
  | grown {w : Window α} {ws : List (Window α)} : w.right + 1 < w.left + n →
      ¬ (w.grow v len).saved < 0 → Run n v len (w.grow v len) .growing ws →
      Run n v len w .growing (w.grow v len :: ws)
  /-- The window has no edge left to give up. -/
  | met {w : Window α} : w.left = w.right → Run n v len w .shrinking []
  | freed {w : Window α} {ws : List (Window α)} : w.left < w.right → w.left < n →
      0 < (w.shrink v len).saved → Run n v len (w.shrink v len) .growing ws →
      Run n v len w .shrinking (w.shrink v len :: ws)
  | short {w : Window α} {ws : List (Window α)} : w.left < w.right → w.left < n →
      ¬ 0 < (w.shrink v len).saved → Run n v len (w.shrink v len) .shrinking ws →
      Run n v len w .shrinking ws

variable {n : ℕ} {v len : ℕ → α}

/-- The scan of a walk that never fails lists the windows of a run. -/
theorem scanFrom_run {m : Type → Type} [Monad m] [LawfulMonad m] (v len : ℕ → α) (l k : ℕ)
    (hl : l < n) (hk : k < n) (total saved : α) (phase : Phase) :
    ∃ ws, scanFrom n (fun i => (pure (v i) : m α)) (fun i => pure (len i)) l k hl hk total saved
      phase = pure ws ∧ Run n v len ⟨l, l + k, total, saved⟩ phase ws := by
  induction l, k, hl, hk, total, saved, phase using scanFrom.induct with
  | case1 l k hl hk total saved ihs ihg =>
    rw [scanFrom]
    simp only [pure_bind]
    by_cases hclosed : k + 1 = n
    · exact ⟨[], by rw [dif_pos hclosed], .closed (by simp; omega)⟩
    rw [dif_neg hclosed]
    by_cases hneg : saved - len (l + k) < 0
    · obtain ⟨ws, hws, run⟩ := ihs (len (l + k)) (v (l + k + 1)) hclosed
      exact ⟨ws, by rw [if_pos hneg, hws], .overdrawn (by simp; omega) hneg run⟩
    · obtain ⟨ws, hws, run⟩ := ihg (len (l + k)) (v (l + k + 1)) hclosed
      exact ⟨_, by rw [if_neg hneg, hws, pure_bind]; rfl, .grown (by simp; omega) hneg run⟩
  | case2 l hl total saved hk =>
    rw [scanFrom]
    exact ⟨[], by simp, .met rfl⟩
  | case3 l k hl hk total saved hk0 ihg ihs =>
    rw [scanFrom, dif_neg hk0]
    simp only [pure_bind]
    have hright : l + 1 + (k - 1) = l + k := by omega
    by_cases hpos : 0 < saved + len l
    · rw [if_pos hpos]
      by_cases hlast : l + 1 = n
      · exact ⟨_, by rw [dif_pos hlast]; rfl, .freed (by simp; omega) hl hpos (.passed hlast)⟩
      · obtain ⟨ws, hws, run⟩ := ihg (len l) (v l) hlast
        rw [hright] at run
        exact ⟨_, by rw [dif_neg hlast, hws, pure_bind]; rfl, .freed (by simp; omega) hl hpos run⟩
    · rw [if_neg hpos]
      by_cases hlast : l + 1 = n
      · exact ⟨_, by rw [dif_pos hlast], .short (by simp; omega) hl hpos (.passed hlast)⟩
      · obtain ⟨ws, hws, run⟩ := ihs (len l) (v l) hlast
        rw [hright] at run
        exact ⟨_, by rw [dif_neg hlast, hws], .short (by simp; omega) hl hpos run⟩

/-- A scan that ends without a fault is that of any walk that never fails and is the same wherever
the first one can be read. -/
theorem scanFrom_of_ok {value length : ℕ → Except Fault α} {ws : List (Window α)}
    (hv : ∀ i x, value i = .ok x → v i = x) (hlen : ∀ i x, length i = .ok x → len i = x) (l k : ℕ)
    (hl : l < n) (hk : k < n) (total saved : α) (phase : Phase)
    (h : scanFrom n value length l k hl hk total saved phase = .ok ws) :
    scanFrom n (fun i => (pure (v i) : Except Fault α)) (fun i => pure (len i)) l k hl hk total
      saved phase = .ok ws := by
  -- A scan without a fault has read every number it needs, and `v` and `len` hold the same ones.
  induction l, k, hl, hk, total, saved, phase using scanFrom.induct generalizing ws with
  | case1 l k hl hk total saved ihs ihg =>
    rw [scanFrom] at h ⊢
    obtain ⟨leg, hleg, h⟩ := bind_eq_ok_iff.mp h
    obtain ⟨worth, hworth, h⟩ := bind_eq_ok_iff.mp h
    simp only [pure_bind, hlen _ _ hleg, hv _ _ hworth]
    by_cases hclosed : k + 1 = n
    · rw [dif_pos hclosed] at h ⊢
      exact h
    rw [dif_neg hclosed] at h ⊢
    by_cases hneg : saved - leg < 0
    · rw [if_pos hneg] at h ⊢
      exact ihs leg worth hclosed h
    · rw [if_neg hneg] at h ⊢
      obtain ⟨rest, hrest, h⟩ := bind_eq_ok_iff.mp h
      rw [ihg leg worth hclosed hrest]
      exact h
  | case2 l hl total saved hk =>
    rw [scanFrom, dif_pos rfl] at h ⊢
    exact h
  | case3 l k hl hk total saved hk0 ihg ihs =>
    rw [scanFrom, dif_neg hk0] at h ⊢
    obtain ⟨leg, hleg, h⟩ := bind_eq_ok_iff.mp h
    obtain ⟨worth, hworth, h⟩ := bind_eq_ok_iff.mp h
    simp only [pure_bind, hlen _ _ hleg, hv _ _ hworth]
    by_cases hpos : 0 < saved + leg
    · rw [if_pos hpos] at h ⊢
      by_cases hlast : l + 1 = n
      · rw [dif_pos hlast] at h ⊢
        exact h
      · rw [dif_neg hlast] at h ⊢
        obtain ⟨rest, hrest, h⟩ := bind_eq_ok_iff.mp h
        rw [ihg leg worth hlast hrest]
        exact h
    · rw [if_neg hpos] at h ⊢
      by_cases hlast : l + 1 = n
      · rw [dif_pos hlast] at h ⊢
        exact h
      · rw [dif_neg hlast] at h ⊢
        exact ihs leg worth hlast h

end Rules

variable {n : ℕ} {v len : ℕ → ℚ} {budget : ℚ} {w z : Window ℚ} {phase : Phase}
  {ws : List (Window ℚ)} {l r : ℕ}

/-- Every window that the scan lists after a stretch is a stretch within the budget. -/
theorem Run.sound (run : Run n v len w phase ws) (hw : stretch v len budget l r = w)
    (hl : l ≤ n) (hlr : l ≤ r) (hr : r < l + n) :
    ∀ y ∈ ws, ∃ s t, s ≤ n ∧ s ≤ t ∧ t < s + n ∧ y = stretch v len budget s t ∧ 0 ≤ y.saved := by
  -- Carried along: the window is the stretch from `l` to `r`, no longer than once around.
  induction run generalizing l r with
  | passed _ | closed _ | met _ => simp
  | overdrawn hn _ _ ih =>
    subst hw
    exact ih (stretch_grow v len budget hlr).symm hl (by omega) hn
  | grown hn hneg _ ih =>
    subst hw
    have hgrow := stretch_grow v len budget hlr
    refine List.forall_mem_cons.mpr ⟨?_, ih hgrow.symm hl (by omega) hn⟩
    exact ⟨l, r + 1, hl, by omega, hn, hgrow, not_lt.mp hneg⟩
  | freed hlt hn hpos _ ih =>
    subst hw
    replace hlt : l < r := hlt
    have hshrink := stretch_shrink v len budget hlt
    refine List.forall_mem_cons.mpr ⟨?_, ih hshrink.symm hn hlt (by omega)⟩
    exact ⟨l + 1, r, hn, hlt, by omega, hshrink, le_of_lt hpos⟩
  | short hlt hn _ _ ih =>
    subst hw
    replace hlt : l < r := hlt
    exact ih (stretch_shrink v len budget hlt).symm hn hlt (by omega)

/-- What holds of the window `z` that was listed last when the scan is at the stretch from `l` to
`r`.  Growing, it is that stretch.  Shrinking, no budget is left of the stretch, and `z` reaches as
far as the stretch without its last edge. -/
def Trails (v len : ℕ → ℚ) (budget : ℚ) (z : Window ℚ) (l r : ℕ) : Phase → Prop
  | .growing => z = stretch v len budget l r
  | .shrinking => (stretch v len budget l r).saved ≤ 0 ∧ z.left ≤ l ∧ r ≤ z.right + 1

/-- A window reaches over the positions from `s` to `t`, or around the whole walk. -/
def Reaches (n : ℕ) (w : Window ℚ) (s t : ℕ) : Prop :=
  w.left ≤ s ∧ t ≤ w.right ∨ w.right + 1 = w.left + n

theorem Reaches.value_le (h : (stretch v len budget l r).Reaches n s t)
    (hv : ∀ i, v (i + n) = v i) (h0 : ∀ i, 0 ≤ v i) (ht : t < s + n) :
    (stretch v len budget s t).value ≤ (stretch v len budget l r).value := by
  rcases h with ⟨hl, hr⟩ | hround
  · exact stretch_value_le h0 hl hr
  · exact stretch_value_le_full hv h0 hround ht

/-- While the scan shrinks, the window listed last reaches over every stretch from the same position
that leaves some budget. -/
theorem Trails.reaches (hz : Trails v len budget z l r .shrinking) (hlen : ∀ i, 0 ≤ len i) {t : ℕ}
    (hsaved : 0 < (stretch v len budget l t).saved) : z.Reaches n l t := by
  obtain ⟨hover, hleft, hright⟩ := hz
  have htr : t < r := by
    by_contra h
    have hle : (stretch v len budget l t).saved ≤ (stretch v len budget l r).saved :=
      stretch_saved_le hlen (not_lt.mp h)
    linarith
  exact .inl ⟨hleft, by omega⟩

/-- A stretch that leaves some budget is reached over by the window listed last or a later one. -/
theorem Run.covers (run : Run n v len w phase ws) (hw : stretch v len budget l r = w)
    (hlr : l ≤ r) (hz : Trails v len budget z l r phase) (hlen : ∀ i, 0 ≤ len i) {s t : ℕ}
    (hs : l ≤ s) (hsn : s < n) (hst : s ≤ t) (hsaved : 0 < (stretch v len budget s t).saved) :
    ∃ y ∈ z :: ws, y.Reaches n s t := by
  -- Carried along: the stretch asked for starts at `l` or later, and `z` trails the scan.
  induction run generalizing l r z with
  | passed h =>
    subst hw
    exact absurd (hs.trans_lt hsn) (not_lt.mpr h.ge)
  | closed h =>
    subst hw hz
    exact ⟨_, by simp, .inr h⟩
  | overdrawn _ hneg _ ih =>
    subst hw hz
    have hgrow := stretch_grow v len budget hlr
    rw [hgrow] at hneg
    exact ih hgrow.symm (by omega) ⟨le_of_lt hneg, le_rfl, le_rfl⟩ hs
  | grown _ _ _ ih =>
    subst hw
    have hgrow := stretch_grow v len budget hlr
    obtain ⟨y, hy, hreach⟩ := ih hgrow.symm (by omega) hgrow hs
    exact ⟨y, List.mem_cons_of_mem z hy, hreach⟩
  | met h =>
    -- No budget at all is left, so no stretch leaves any.
    subst hw
    obtain rfl : l = r := h
    have hzero : budget ≤ 0 := by
      have := hz.1
      rwa [stretch_self] at this
    have hle : (stretch v len budget s t).saved ≤ (stretch v len budget s s).saved :=
      stretch_saved_le hlen hst
    rw [stretch_self] at hle
    exact absurd hsaved (not_lt.mpr (hle.trans hzero))
  | freed hlt _ _ _ ih =>
    subst hw
    rcases hs.eq_or_lt with rfl | hs
    · exact ⟨z, by simp, hz.reaches hlen hsaved⟩
    · have hshrink := stretch_shrink v len budget hlt
      obtain ⟨y, hy, hreach⟩ := ih hshrink.symm hlt hshrink hs
      exact ⟨y, List.mem_cons_of_mem z hy, hreach⟩
  | short hlt _ hpos _ ih =>
    subst hw
    rcases hs.eq_or_lt with rfl | hs
    · exact ⟨z, by simp, hz.reaches hlen hsaved⟩
    · have hshrink : _ = stretch v len budget (l + 1) r := stretch_shrink v len budget hlt
      rw [hshrink] at hpos
      exact ih hshrink.symm hlt ⟨not_lt.mp hpos, hz.2.1.trans (Nat.le_succ l), hz.2.2⟩ hs

end CityTour.Window
