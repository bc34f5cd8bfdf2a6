import Mathlib
import CityTour.Entries

/-! Entries with different keys.  Given one after the other they stay as they are, however they
would be altered by an older one (`foldl_alter_of_nodup`), and names for their keys that differ do
not change what is altered or found. -/

namespace CityTour.Entries

variable {κ ι β : Type} [DecidableEq κ] [DecidableEq ι] {key : κ} {entries done : List (κ × β)}

theorem alter_of_not_mem (change : Option β → β) (h : key ∉ entries.map Prod.fst) :
    alter change key entries = entries ++ [(key, change none)] := by
  induction entries with
  | nil => rfl
  | cons e rest ih =>
    rw [List.map_cons, List.mem_cons, not_or] at h
    rw [alter, if_neg h.1, ih h.2, List.cons_append]

theorem foldl_alter_of_nodup (change : β → Option β → β) (hnone : ∀ v, change v none = v)
    (h : ((done ++ entries).map Prod.fst).Nodup) :
    entries.foldl (fun done e => alter (change e.2) e.1 done) done = done ++ entries := by
  -- The entries done so far keep their keys apart from those still to come.
  induction entries generalizing done with
  | nil => simp
  | cons e rest ih =>
    have hnew : e.1 ∉ done.map Prod.fst := fun hmem => by
      rw [List.map_append] at h
      exact List.disjoint_of_nodup_append h hmem List.mem_cons_self
    rw [List.append_cons] at h ⊢
    rw [List.foldl_cons, alter_of_not_mem _ hnew, hnone, ih h]

theorem keys_alter (change : Option β → β) (key : κ) (entries : List (κ × β)) :
    (alter change key entries).map Prod.fst =
      if key ∈ entries.map Prod.fst then entries.map Prod.fst
      else entries.map Prod.fst ++ [key] := by
  by_cases h : key ∈ entries.map Prod.fst
  · rw [if_pos h]
    induction entries with
    | nil => exact absurd h List.not_mem_nil
    | cons e rest ih =>
      obtain ⟨k, v⟩ := e
      rw [alter]
      by_cases hk : key = k
      · rw [if_pos hk]
        rfl
      · rw [List.map_cons, List.mem_cons, or_iff_right hk] at h
        rw [if_neg hk, List.map_cons, List.map_cons, ih h]
  · rw [if_neg h, alter_of_not_mem change h, List.map_append]
    rfl

theorem nodup_alter (change : Option β → β) (key : κ) (h : (entries.map Prod.fst).Nodup) :
    ((alter change key entries).map Prod.fst).Nodup := by
  rw [keys_alter]
  by_cases hkey : key ∈ entries.map Prod.fst
  · rwa [if_pos hkey]
  · rw [if_neg hkey, ← List.concat_eq_append]
    exact h.concat hkey

/-- Entries with different keys stay as they are. -/
theorem settle_of_nodup (h : (entries.map Prod.fst).Nodup) : settle entries = entries :=
  foldl_alter_of_nodup (fun v _ => v) (fun _ => rfl) h

theorem map_alter {rename : κ → ι} (hinj : Function.Injective rename) (change : Option β → β)
    (key : κ) (entries : List (κ × β)) :
    (alter change key entries).map (Prod.map rename id) =
      alter change (rename key) (entries.map (Prod.map rename id)) := by
  induction entries with
  | nil => rfl
  | cons e rest ih =>
    obtain ⟨k, v⟩ := e
    rw [List.map_cons, Prod.map_apply, alter, alter]
    by_cases h : key = k
    · rw [if_pos h, if_pos (congrArg rename h), List.map_cons, Prod.map_apply]
      rfl
    · rw [if_neg h, if_neg (hinj.ne h), List.map_cons, Prod.map_apply, ih]

theorem lookup_map {rename : κ → ι} (hinj : Function.Injective rename) (key : κ)
    (entries : List (κ × β)) :
    (entries.map (Prod.map rename id)).lookup (rename key) = entries.lookup key := by
  induction entries with
  | nil => rfl
  | cons e rest ih =>
    obtain ⟨k, v⟩ := e
    rw [List.map_cons, Prod.map_apply, List.lookup_cons, List.lookup_cons, ih]
    have hkey : (rename key == rename k) = (key == k) := by
      rw [Bool.eq_iff_iff, beq_iff_eq, beq_iff_eq, hinj.eq_iff]
    rw [hkey]
    rfl

theorem lookup_eq_some_iff {value : β} (h : (entries.map Prod.fst).Nodup) :
    entries.lookup key = some value ↔ (key, value) ∈ entries := by
  induction entries with
  | nil => simp
  | cons e rest ih =>
    obtain ⟨k, v⟩ := e
    rw [List.map_cons, List.nodup_cons] at h
    rw [List.lookup_cons, List.mem_cons, Prod.mk.injEq]
    by_cases hk : key = k
    · subst hk
      have hrest : (key, value) ∉ rest := fun hmem => h.1 (List.mem_map.mpr ⟨_, hmem, rfl⟩)
      simp [hrest, eq_comm]
    · rw [beq_false_of_ne hk]
      simp [hk, ih h.2]

end CityTour.Entries
