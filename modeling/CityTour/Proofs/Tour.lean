import Mathlib
import CityTour.Proofs.Sequence
import CityTour.Tour

/-! Tours through all cities.  `IsTour` says that a list of integers holds each city once, and
`visitsAll` tests that.  `numbers` writes down a list of cities; the tours are what it makes of the
arrangements of all cities. -/

namespace CityTour

variable {n : ℕ} {tour : List ℤ} {visits : List (Fin n)}

/-- A list of integers that holds each of `n` cities once and nothing else. -/
def IsTour (n : ℕ) (tour : List ℤ) : Prop := tour.Perm ((List.range n).map Int.ofNat)

instance (n : ℕ) (tour : List ℤ) : Decidable (IsTour n tour) :=
  inferInstanceAs (Decidable (tour.Perm _))

/-- The integers of some cities. -/
def numbers (visits : List (Fin n)) : List ℤ := visits.map fun i : Fin n => ((i : ℕ) : ℤ)

/-- The list of the cities that a closed walk visits at its `n` positions. -/
def tourOf (c : Fin n → Fin n) : List ℤ := numbers (List.ofFn c)

theorem number_injective : Function.Injective fun i : Fin n => ((i : ℕ) : ℤ) := fun _ _ h =>
  Fin.ext (Int.ofNat.inj h)

@[simp] theorem length_numbers (visits : List (Fin n)) : (numbers visits).length = visits.length :=
  List.length_map _

@[simp] theorem cityAt?_coe (i : Fin n) : cityAt? n ((i : ℕ) : ℤ) = some i := by
  simp [cityAt?]

@[simp] theorem Lookup.ofInt_coe (i : Fin n) : Lookup.ofInt n ((i : ℕ) : ℤ) = .city i := by
  simp [Lookup.ofInt]

theorem map_cityAt?_numbers (visits : List (Fin n)) :
    (numbers visits).map (cityAt? n) = visits.map some := by
  rw [numbers, List.map_map]
  exact List.map_congr_left fun i _ => cityAt?_coe i

theorem Route.ofTour_numbers (visits : List (Fin n)) :
    Route.ofTour n (numbers visits) = visits.map Lookup.city := by
  rw [Route.ofTour, numbers, List.map_map]
  exact List.map_congr_left fun i _ => Lookup.ofInt_coe i

/-- The test of a tour accepts exactly the arrangements of all cities. -/
theorem visitsAll_iff : visitsAll n tour = true ↔ IsTour n tour := by
  simp only [visitsAll, Bool.and_eq_true, beq_iff_eq, Int.toNat_natCast]
  refine ⟨fun ⟨_, h⟩ => (tour.mergeSort_perm _).symm.trans (.of_eq h), fun h => ⟨?_, ?_⟩⟩
  · have hlen := List.Perm.length_eq h
    rw [List.length_map, List.length_range] at hlen
    exact_mod_cast hlen
  · refine mergeSort_eq_of_perm (by simp; omega) (by simp; omega) (by simp; omega) ?_ h
    rw [List.pairwise_map]
    exact List.pairwise_lt_range.imp fun h => by simpa using h.le

theorem numbers_finRange : numbers (List.finRange n) = (List.range n).map Int.ofNat :=
  List.ext_getElem (by simp) (by simp [numbers])

theorem isTour_numbers_iff : IsTour n (numbers visits) ↔ visits.Perm (List.finRange n) := by
  rw [IsTour, ← numbers_finRange]
  exact List.map_perm_map_iff number_injective

/-- The tours are the integers of the arrangements of all cities. -/
theorem isTour_iff : IsTour n tour ↔
    ∃ visits : List (Fin n), visits.Perm (List.finRange n) ∧ numbers visits = tour := by
  refine ⟨fun h => ?_, ?_⟩
  · rw [IsTour, ← numbers_finRange, numbers] at h
    obtain ⟨visits, heq, hperm⟩ := (congrFun₂ (List.eq_map_comp_perm _) tour _).mpr h
    exact ⟨visits, hperm, heq.symm⟩
  · rintro ⟨visits, hperm, rfl⟩
    exact isTour_numbers_iff.mpr hperm

/-! ### Arrangements of all cities -/

theorem nodup_of_perm_finRange (h : visits.Perm (List.finRange n)) : visits.Nodup :=
  h.symm.nodup (List.nodup_finRange n)

theorem length_of_perm_finRange (h : visits.Perm (List.finRange n)) : visits.length = n :=
  h.length_eq.trans (List.length_finRange ..)

theorem mem_of_perm_finRange (h : visits.Perm (List.finRange n)) (c : Fin n) : c ∈ visits :=
  h.mem_iff.mpr (List.mem_finRange c)

theorem IsTour.length_eq (h : IsTour n tour) : tour.length = n := by
  obtain ⟨visits, hperm, rfl⟩ := isTour_iff.mp h
  rw [length_numbers, length_of_perm_finRange hperm]

/-- As many visits as there are cities, to every city, arrange all cities. -/
theorem perm_finRange_of_forall_mem (hlen : visits.length = n) (h : ∀ c, c ∈ visits) :
    visits.Perm (List.finRange n) := by
  have hsub := (List.nodup_finRange n).subperm fun c _ => h c
  exact (hsub.perm_of_length_le (by simp [hlen])).symm

/-- The tours are the closed walks along permutations of the cities. -/
theorem isTour_iff_exists_tourOf : IsTour n tour ↔ ∃ σ : Equiv.Perm (Fin n), tourOf σ = tour := by
  constructor
  · intro h
    obtain ⟨visits, hperm, rfl⟩ := isTour_iff.mp h
    have hlen : n = visits.length := (length_of_perm_finRange hperm).symm
    have hinj : Function.Injective fun i => visits.get (Fin.cast hlen i) :=
      (List.nodup_iff_injective_get.mp (nodup_of_perm_finRange hperm)).comp
        (Fin.cast_injective hlen)
    refine ⟨Equiv.ofBijective _ (Finite.injective_iff_bijective.mp hinj), congrArg numbers ?_⟩
    exact List.ext_getElem (by simp [hlen]) fun k _ _ => by simp
  · rintro ⟨σ, rfl⟩
    refine isTour_numbers_iff.mpr (perm_finRange_of_forall_mem List.length_ofFn fun c => ?_)
    exact List.mem_ofFn.mpr ⟨σ.symm c, σ.apply_symm_apply c⟩

theorem isTour_tourOf (σ : Equiv.Perm (Fin n)) : IsTour n (tourOf σ) :=
  isTour_iff_exists_tourOf.mpr ⟨σ, rfl⟩

end CityTour
