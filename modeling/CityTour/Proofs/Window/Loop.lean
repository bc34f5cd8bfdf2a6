import Mathlib
import CityTour.Proofs.Window.Stretch

/-! The scan as a loop.  A turn of the loop moves one end of the window and compares both ends on
the cycle, modulo the count of positions; `loop` repeats it for a bounded count of turns.
`scanFrom_eq_loop` says that the loop ends and lists the windows of the scan, and `loop_forward`
that its windows stay on the walk and only move forward.  Nothing is assumed of the numbers. -/

namespace CityTour.Window

variable {α : Type}

/-- A window of a closed walk: it starts at one of the positions or once around, and does not go
all the way around. -/
structure OnWalk (n : ℕ) (w : Window α) : Prop where
  left_le : w.left ≤ n
  left_le_right : w.left ≤ w.right
  right_lt : w.right < w.left + n

/-- No end of the second window is behind that of the first, and one is ahead. -/
structure Precedes (w z : Window α) : Prop where
  left_le : w.left ≤ z.left
  right_le : w.right ≤ z.right
  sum_lt : w.left + w.right < z.left + z.right

theorem Precedes.trans {w y z : Window α} (h : w.Precedes y) (h' : y.Precedes z) : w.Precedes z :=
  ⟨h.left_le.trans h'.left_le, h.right_le.trans h'.right_le, h.sum_lt.trans h'.sum_lt⟩

/-- Where the loop can be: while it shrinks, the window may have closed around the walk. -/
def Live (n : ℕ) (w : Window α) : Phase → Prop
  | .growing => w.left < n ∧ w.left ≤ w.right ∧ w.right < w.left + n
  | .shrinking => w.left < n ∧ w.left ≤ w.right ∧ w.right ≤ w.left + n

theorem Live.sum_le {n : ℕ} {w : Window α} {phase : Phase} (h : Live n w phase) :
    w.left + w.right + 2 ≤ 3 * n := by
  cases phase with
  | growing =>
    obtain ⟨hl, -, hr⟩ := h
    omega
  | shrinking =>
    obtain ⟨hl, -, hr⟩ := h
    omega

variable [Scalar α]

/-- The window that a turn lists, if any, and what the loop goes on from, unless it ends. -/
structure Turn (α : Type) where
  listed : Option (Window α)
  next : Option (Window α × Phase)

/-- One turn of the loop. -/
def turn (n : ℕ) (v len : ℕ → α) (w : Window α) : Phase → Turn α
  | .growing =>
    let z := w.grow v len
    if z.saved < 0 ∨ z.left % n = z.right % n then ⟨none, some (z, .shrinking)⟩
    else ⟨some z, some (z, .growing)⟩
  | .shrinking =>
    let z := w.shrink v len
    if w.left % n = w.right % n then ⟨none, none⟩
    else if 0 < z.saved then ⟨some z, if z.left = n then none else some (z, .growing)⟩
    else ⟨none, if z.left = n then none else some (z, .shrinking)⟩

/-- The windows that the loop lists, if it ends within a count of turns. -/
def loop (n : ℕ) (v len : ℕ → α) : ℕ → Window α → Phase → Option (List (Window α))
  | 0, _, _ => none
  | turns + 1, w, phase =>
    let t := turn n v len w phase
    match t.next with
    | none => some t.listed.toList
    | some (z, phase) => (loop n v len turns z phase).map (t.listed.toList ++ ·)

variable {n : ℕ} {v len : ℕ → α}

theorem turn_stop_growing {w : Window α}
    (h : (w.grow v len).saved < 0 ∨ w.left % n = (w.right + 1) % n) :
    turn n v len w .growing = ⟨none, some (w.grow v len, .shrinking)⟩ := if_pos h

theorem turn_grow {w : Window α} (hneg : ¬ (w.grow v len).saved < 0)
    (hmeet : ¬ w.left % n = (w.right + 1) % n) :
    turn n v len w .growing = ⟨some (w.grow v len), some (w.grow v len, .growing)⟩ :=
  if_neg (not_or.mpr ⟨hneg, hmeet⟩)

theorem turn_meet {w : Window α} (h : w.left % n = w.right % n) :
    turn n v len w .shrinking = ⟨none, none⟩ := if_pos h

theorem turn_free {w : Window α} (hmeet : ¬ w.left % n = w.right % n)
    (hpos : 0 < (w.shrink v len).saved) :
    turn n v len w .shrinking = ⟨some (w.shrink v len),
      if w.left + 1 = n then none else some (w.shrink v len, .growing)⟩ := by
  rw [turn, if_neg hmeet, if_pos hpos]
  rfl

theorem turn_shrink {w : Window α} (hmeet : ¬ w.left % n = w.right % n)
    (hpos : ¬ 0 < (w.shrink v len).saved) :
    turn n v len w .shrinking = ⟨none,
      if w.left + 1 = n then none else some (w.shrink v len, .shrinking)⟩ := by
  rw [turn, if_neg hmeet, if_neg hpos]
  rfl

theorem loop_last {turns : ℕ} {w : Window α} {phase : Phase} {listed : Option (Window α)}
    (h : turn n v len w phase = ⟨listed, none⟩) :
    loop n v len (turns + 1) w phase = some listed.toList := by
  simp only [loop, h]

theorem loop_next {turns : ℕ} {w z : Window α} {phase phase' : Phase}
    {listed : Option (Window α)} {ws : List (Window α)}
    (h : turn n v len w phase = ⟨listed, some (z, phase')⟩)
    (hz : loop n v len turns z phase' = some ws) :
    loop n v len (turns + 1) w phase = some (listed.toList ++ ws) := by
  simp only [loop, h, hz, Option.map_some]

/-- Positions no farther apart than once around the cycle meet on it only if they are equal or
exactly once around apart. -/
theorem mod_eq_mod_iff {l r : ℕ} (hn : 0 < n) (hlr : l ≤ r) (hr : r ≤ l + n) :
    l % n = r % n ↔ r = l ∨ r = l + n := by
  constructor
  · intro h
    obtain ⟨q, hq⟩ := (Nat.modEq_iff_dvd' hlr).mp h
    rcases Nat.lt_or_ge q 2 with hq2 | hq2
    · rcases Nat.le_one_iff_eq_zero_or_eq_one.mp (Nat.le_of_lt_succ hq2) with rfl | rfl
      · left
        omega
      · right
        omega
    · have : n * 2 ≤ n * q := Nat.mul_le_mul_left n hq2
      omega
  · rintro (rfl | rfl)
    · rfl
    · rw [Nat.add_mod_right]

/-- The scan of a walk that never fails lists the windows of the loop, which ends. -/
theorem scanFrom_eq_loop {m : Type → Type} [Monad m] [LawfulMonad m] (v len : ℕ → α) (l k : ℕ)
    (hl : l < n) (hk : k < n) (total saved : α) (phase : Phase) (turns : ℕ)
    (hturns : 2 * (n - l) + (n - k) ≤ turns + 1) :
    ∃ ws, scanFrom n (fun i => (pure (v i) : m α)) (fun i => pure (len i)) l k hl hk total saved
      phase = pure ws ∧ loop n v len turns ⟨l, l + k, total, saved⟩ phase = some ws := by
  have hn : 0 < n := Nat.zero_lt_of_lt hl
  -- Every pass of the scan is one turn of the loop; the bound on the turns falls with each of them.
  induction l, k, hl, hk, total, saved, phase using scanFrom.induct generalizing turns with
  | case1 l k hl hk total saved ihs ihg =>
    obtain ⟨turns, rfl⟩ : ∃ m, turns = m + 2 := ⟨turns - 2, by omega⟩
    have hmeet : l % n = (l + k + 1) % n ↔ k + 1 = n := by
      rw [mod_eq_mod_iff hn (by omega) (by omega)]
      omega
    rw [scanFrom]
    simp only [pure_bind]
    by_cases hclosed : k + 1 = n
    · -- The window has closed around the walk, which the next turn notices.
      refine ⟨[], by rw [dif_pos hclosed], ?_⟩
      have hround := hmeet.mpr hclosed
      exact loop_next (turn_stop_growing (.inr hround)) (loop_last (turn_meet hround))
    · rw [dif_neg hclosed]
      by_cases hneg : saved - len (l + k) < 0
      · obtain ⟨ws, hws, hloop⟩ := ihs (len (l + k)) (v (l + k + 1)) hclosed
          (turns + 1) (by omega)
        exact ⟨ws, by rw [if_pos hneg, hws], loop_next (turn_stop_growing (.inl hneg)) hloop⟩
      · obtain ⟨ws, hws, hloop⟩ := ihg (len (l + k)) (v (l + k + 1)) hclosed
          (turns + 1) (by omega)
        refine ⟨_, ?_, loop_next (turn_grow hneg (mt hmeet.mp hclosed)) hloop⟩
        rw [if_neg hneg, hws, pure_bind]
        rfl
  | case2 l hl total saved hk =>
    obtain ⟨turns, rfl⟩ : ∃ m, turns = m + 1 := ⟨turns - 1, by omega⟩
    rw [scanFrom]
    exact ⟨[], by simp, loop_last (turn_meet rfl)⟩
  | case3 l k hl hk total saved hk0 ihg ihs =>
    obtain ⟨turns, rfl⟩ : ∃ m, turns = m + 1 := ⟨turns - 1, by omega⟩
    have hmeet : ¬ l % n = (l + k) % n := by
      rw [mod_eq_mod_iff hn (by omega) (by omega)]
      omega
    have hright : l + 1 + (k - 1) = l + k := by omega
    rw [scanFrom, dif_neg hk0]
    simp only [pure_bind]
    by_cases hpos : 0 < saved + len l
    · have hturn := turn_free (v := v) (w := ⟨l, l + k, total, saved⟩) hmeet hpos
      rw [if_pos hpos]
      by_cases hlast : l + 1 = n
      · rw [if_pos hlast] at hturn
        refine ⟨_, ?_, loop_last hturn⟩
        rw [dif_pos hlast]
        rfl
      · obtain ⟨ws, hws, hloop⟩ := ihg (len l) (v l) hlast turns (by omega)
        rw [hright] at hloop
        rw [if_neg hlast] at hturn
        refine ⟨_, ?_, loop_next hturn hloop⟩
        rw [dif_neg hlast, hws, pure_bind]
        rfl
    · have hturn := turn_shrink (v := v) (w := ⟨l, l + k, total, saved⟩) hmeet hpos
      rw [if_neg hpos]
      by_cases hlast : l + 1 = n
      · rw [if_pos hlast] at hturn
        exact ⟨[], by rw [dif_pos hlast], loop_last hturn⟩
      · obtain ⟨ws, hws, hloop⟩ := ihs (len l) (v l) hlast turns (by omega)
        rw [hright] at hloop
        rw [if_neg hlast] at hturn
        exact ⟨ws, by rw [dif_neg hlast, hws], loop_next hturn hloop⟩

/-! ### Pointers -/

theorem precedes_grow (w : Window α) : w.Precedes (w.grow v len) :=
  ⟨Nat.le_refl _, Nat.le_succ _, by simp [grow]⟩

theorem precedes_shrink (w : Window α) : w.Precedes (w.shrink v len) :=
  ⟨Nat.le_succ _, Nat.le_refl _, by simp [shrink]⟩

/-- What one turn does to the pointers. -/
structure Forward (n : ℕ) (w : Window α) (t : Turn α) : Prop where
  listed : ∀ z ∈ t.listed, z.OnWalk n ∧ w.Precedes z ∧ z.left + z.right + 2 ≤ 3 * n
  next : ∀ z phase, t.next = some (z, phase) →
    Live n z phase ∧ w.Precedes z ∧ ∀ y ∈ t.listed, y = z

theorem turn_forward {w : Window α} {phase : Phase} (h : Live n w phase) :
    Forward n w (turn n v len w phase) := by
  cases phase with
  | growing =>
    obtain ⟨hl, hlr, hr⟩ := h
    have hmeet := mod_eq_mod_iff (Nat.zero_lt_of_lt hl) (show w.left ≤ w.right + 1 by omega) hr
    by_cases hneg : (w.grow v len).saved < 0
    · rw [turn_stop_growing (.inl hneg)]
      refine ⟨by simp, ?_⟩
      rintro z phase ⟨⟩
      exact ⟨⟨hl, hlr.trans (Nat.le_succ _), hr⟩, precedes_grow w, by simp⟩
    by_cases hround : w.left % n = (w.right + 1) % n
    · rw [turn_stop_growing (.inr hround)]
      refine ⟨by simp, ?_⟩
      rintro z phase ⟨⟩
      exact ⟨⟨hl, hlr.trans (Nat.le_succ _), hr⟩, precedes_grow w, by simp⟩
    · have hlt : w.right + 1 < w.left + n := by omega
      rw [turn_grow hneg hround]
      constructor
      · rintro z ⟨⟩
        refine ⟨⟨hl.le, hlr.trans (Nat.le_succ _), hlt⟩, precedes_grow w, ?_⟩
        show w.left + (w.right + 1) + 2 ≤ 3 * n
        omega
      · rintro z phase ⟨⟩
        exact ⟨⟨hl, hlr.trans (Nat.le_succ _), hlt⟩, precedes_grow w, by simp⟩
  | shrinking =>
    obtain ⟨hl, hlr, hr⟩ := h
    have hmeet := mod_eq_mod_iff (Nat.zero_lt_of_lt hl) hlr hr
    by_cases hround : w.left % n = w.right % n
    · rw [turn_meet hround]
      exact ⟨by simp, by simp⟩
    have hlt : w.left < w.right ∧ w.right < w.left + n := by omega
    have hwalk : (w.shrink v len).OnWalk n := by
      refine ⟨hl, hlt.1, ?_⟩
      show w.right < w.left + 1 + n
      omega
    have hlive : ∀ phase, w.left + 1 ≠ n → Live n (w.shrink v len) phase := by
      intro phase hlast
      have hl' : w.left + 1 < n := by omega
      cases phase with
      | growing => exact ⟨hl', hwalk.left_le_right, hwalk.right_lt⟩
      | shrinking => exact ⟨hl', hwalk.left_le_right, hwalk.right_lt.le⟩
    by_cases hpos : 0 < (w.shrink v len).saved
    · rw [turn_free hround hpos]
      constructor
      · rintro z ⟨⟩
        refine ⟨hwalk, precedes_shrink w, ?_⟩
        show w.left + 1 + w.right + 2 ≤ 3 * n
        omega
      · intro z phase hnext
        split at hnext
        · cases hnext
        · rename_i hlast
          cases hnext
          exact ⟨hlive _ hlast, precedes_shrink w, by simp⟩
    · rw [turn_shrink hround hpos]
      refine ⟨by simp, ?_⟩
      intro z phase hnext
      split at hnext
      · cases hnext
      · rename_i hlast
        cases hnext
        exact ⟨hlive _ hlast, precedes_shrink w, by simp⟩

/-- The windows that the loop lists stay on the walk, move forward, and are so few that the sums of
their ends stay below three times around the cycle. -/
theorem loop_forward {turns : ℕ} {w : Window α} {phase : Phase} {ws : List (Window α)}
    (h : Live n w phase) (hloop : loop n v len turns w phase = some ws) :
    (∀ y ∈ ws, y.OnWalk n ∧ w.Precedes y) ∧ ws.Pairwise Precedes ∧
      ws.length + (w.left + w.right) + 2 ≤ 3 * n := by
  induction turns generalizing w phase ws with
  | zero => cases hloop
  | succ turns ih =>
    have hforward : Forward n w (turn n v len w phase) := turn_forward h
    have hsum := h.sum_le
    rw [loop] at hloop
    generalize turn n v len w phase = t at hforward hloop
    obtain ⟨listed, next⟩ := t
    cases next with
    | none =>
      cases hloop
      cases listed with
      | none => simpa using hsum
      | some z =>
        obtain ⟨hwalk, hprec, hle⟩ := hforward.listed z rfl
        refine ⟨by simpa using ⟨hwalk, hprec⟩, by simp, ?_⟩
        have := hprec.sum_lt
        show 1 + (w.left + w.right) + 2 ≤ 3 * n
        omega
    | some state =>
      obtain ⟨z, phase'⟩ := state
      obtain ⟨hlive, hprec, hsame⟩ := hforward.next z phase' rfl
      obtain ⟨rest, hrest, rfl⟩ := Option.map_eq_some_iff.mp hloop
      obtain ⟨hwalk, hpair, hlen⟩ := ih hlive hrest
      have hlt := hprec.sum_lt
      have hwalk' : ∀ y ∈ rest, y.OnWalk n ∧ w.Precedes y := by
        intro y hy
        exact ⟨(hwalk y hy).1, hprec.trans (hwalk y hy).2⟩
      cases listed with
      | none => exact ⟨hwalk', hpair, by simp; omega⟩
      | some y =>
        obtain rfl := hsame y rfl
        refine ⟨List.forall_mem_cons.mpr ⟨⟨(hforward.listed y rfl).1, hprec⟩, hwalk'⟩, ?_, ?_⟩
        · exact List.pairwise_cons.mpr ⟨fun x hx => (hwalk x hx).2, hpair⟩
        · show rest.length + 1 + (w.left + w.right) + 2 ≤ 3 * n
          omega

end CityTour.Window
