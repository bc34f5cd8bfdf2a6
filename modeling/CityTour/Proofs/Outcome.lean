import Mathlib
import CityTour.Problem.Basic
import CityTour.Proofs.ClosedWalk
import CityTour.Proofs.Encoding.Decode
import CityTour.Proofs.Route

/-! What becomes of a chromosome.  `firstFault` is the first check that a row of doubles fails, if
any: its count of entries where it holds arcs or keys, and where it holds cities first that its
entries are finite, then their count, and last that they name cities. -/

namespace CityTour

variable {α : Type} [Scalar α] {tour : List ℤ} {fault : Fault}

namespace Network

variable {n : ℕ} (N : Network α n)

theorem scan_of_length_ne (h : tour.length ≠ n) :
    N.scan (Route.ofTour n tour) = refuse .tourLength := by
  rw [scan, if_neg (by rwa [length_ofTour])]

/-- The scan of a tour whose entries name cities has windows. -/
theorem exists_scan (hlen : tour.length = n) (hnames : NamesCities n tour) :
    ∃ ws, N.scan (Route.ofTour n tour) = .ok ws := by
  obtain ⟨c, hroute⟩ := exists_tourOf hlen hnames
  obtain ⟨ws, hscan, -⟩ := N.scan_tourOf c
  rw [hroute, hscan]
  exact ⟨_, rfl⟩

theorem exists_closedLength (hlen : tour.length = n) (hnames : NamesCities n tour) :
    ∃ length, N.closedLength (Route.ofTour n tour) = .ok length := by
  obtain ⟨c, hroute⟩ := exists_tourOf hlen hnames
  exact ⟨N.circuit c, by rw [hroute, N.closedLength_tourOf]⟩

end Network

namespace Problem

section AnyNumbers

variable (p : Problem α) {x : List α} {measure : Route p.size → Except Fault α}

theorem scoreWith_of_decode_error (h : p.decode x = .error fault) :
    p.scoreWith measure x = .error fault := by
  rw [scoreWith, h]
  rfl

theorem scoreWith_of_scan_error (hdecode : p.decode x = .ok tour)
    (h : p.network.scan (Route.ofTour p.size tour) = .error fault) :
    p.scoreWith measure x = .error fault := by
  simp only [scoreWith, hdecode, ok_bind, Network.bestWindow, h]
  rfl

theorem scoreWith_of_measure_error (hdecode : p.decode x = .ok tour)
    (hscan : ∃ ws, p.network.scan (Route.ofTour p.size tour) = .ok ws)
    (h : measure (Route.ofTour p.size tour) = .error fault) :
    p.scoreWith measure x = .error fault := by
  obtain ⟨ws, hws⟩ := hscan
  simp only [scoreWith, hdecode, ok_bind, Network.bestWindow, hws, h]
  rfl

theorem scoreWith_ok {w : Window α} {length : α} {b : Bool} (hdecode : p.decode x = .ok tour)
    (hw : p.network.bestWindow (Route.ofTour p.size tour) = .ok w)
    (hlength : measure (Route.ofTour p.size tour) = .ok length) (hb : p.feasible x 0 = .ok b) :
    p.scoreWith measure x =
      .ok ⟨p.fitness w.value w.saved, w.value, w.saved, w.left, w.right, length, b⟩ := by
  simp only [scoreWith, hdecode, ok_bind, hw, hlength, hb]
  rfl

/-- A tour with another count of entries than there are cities is refused. -/
theorem scoreWith_of_length_ne (hdecode : p.decode x = .ok tour) (h : tour.length ≠ p.size) :
    p.scoreWith measure x = refuse .tourLength :=
  p.scoreWith_of_scan_error hdecode (p.network.scan_of_length_ne h)

/-- The first entry of a tour that names no city decides the fault. -/
theorem evaluate_of_find (hdecode : p.decode x = .ok tour) (hlen : tour.length = p.size) {i : ℤ}
    (h : tour.find? (strays p.size) = some i) :
    p.evaluate x = .error (strayFault i) := by
  obtain ⟨b, hstray⟩ := Route.straysAt_of_find hlen h
  rcases p.network.scan_of_straysAt hstray with hscan | ⟨hb, hscan⟩
  · exact p.scoreWith_of_scan_error hdecode hscan
  · exact p.scoreWith_of_measure_error hdecode hscan (p.network.closedLength_of_straysAt hstray hb)

/-- The constraints on a chromosome that can be read never fail. -/
theorem exists_feasible (h : p.encoding = .full → (x.length : ℤ) = p.encoding.dimension p.size)
    (tolerance : α) : ∃ b, p.feasible x tolerance = .ok b := by
  obtain ⟨entries, hentries, -⟩ := Encoding.exists_constraints p.network.size_pos h
  rw [feasible, constraints, hentries]
  exact ⟨_, rfl⟩

/-- A chromosome that is read as a tour whose entries name cities has a score. -/
theorem exists_evaluate (hdecode : p.decode x = .ok tour) (hlen : tour.length = p.size)
    (hnames : NamesCities p.size tour)
    (hfull : p.encoding = .full → (x.length : ℤ) = p.encoding.dimension p.size) :
    ∃ s, p.evaluate x = .ok s := by
  obtain ⟨ws, hws⟩ := p.network.exists_scan hlen hnames
  obtain ⟨length, hlength⟩ := p.network.exists_closedLength hlen hnames
  obtain ⟨b, hb⟩ := p.exists_feasible hfull 0
  exact ⟨_, p.scoreWith_ok hdecode (by rw [Network.bestWindow, hws]; rfl) hlength hb⟩

end AnyNumbers

/-- What is wrong with the count of entries of a row of arcs or keys. -/
def countFault (p : Problem Float) (x : List Float) : Option Fault :=
  if x.length = p.encoding.dimension p.size then none
  else some (.refused (.chromosomeSize p.encoding.title (p.encoding.dimension p.size) x.length))

/-- What is wrong with a row of cities: an entry that is not finite, else their count, else an entry
whose integer part names no city. -/
def cityFault (p : Problem Float) (x : List Float) : Option Fault :=
  match x.find? fun v => !v.isFinite with
  | some v => some (if v.isNaN then .undefinedNumber else .unboundedNumber)
  | none =>
    if x.length = p.size then
      (((x.filterMap Double.value?).map Double.towardZero).find? (strays p.size)).map strayFault
    else some (.refused .tourLength)

/-- The first check that a chromosome fails. -/
def firstFault (p : Problem Float) (x : List Float) : Option Fault :=
  match p.encoding with
  | .full | .randomKeys => p.countFault x
  | .cities => p.cityFault x

/-- Whether a chromosome has the declared count of entries, and every city that it holds is between
the first and the last. -/
def InBounds (p : Problem Float) (x : List Float) : Prop :=
  (x.length : ℤ) = p.encoding.dimension p.size ∧
    (p.encoding = .cities → ∀ v ∈ x, ∃ q, Double.value? v = some q ∧ 0 ≤ q ∧ q ≤ p.size - 1)

variable (p : Problem Float) (x : List Float)

/-- A chromosome is evaluated with a fault, or without any. -/
def Outcome : Option Fault → Prop
  | some fault => p.evaluate x = .error fault
  | none => ∃ s, p.evaluate x = .ok s

variable {p x}

theorem Outcome.error_iff {result : Option Fault} (h : p.Outcome x result) (fault : Fault) :
    p.evaluate x = .error fault ↔ result = some fault := by
  cases result with
  | some other =>
    have herror : p.evaluate x = .error other := h
    rw [herror, Except.error.injEq, Option.some.injEq]
  | none =>
    obtain ⟨s, hs⟩ := h
    rw [hs]
    exact iff_of_false nofun nofun

theorem Outcome.ok_iff {result : Option Fault} (h : p.Outcome x result) :
    (∃ s, p.evaluate x = .ok s) ↔ result = none := by
  cases result with
  | some other =>
    have herror : p.evaluate x = .error other := h
    rw [herror]
    exact iff_of_false nofun nofun
  | none => exact iff_of_true h rfl

theorem outcome_countFault (he : p.encoding ≠ .cities) : p.Outcome x (p.countFault x) := by
  unfold countFault
  by_cases hlen : (x.length : ℤ) = p.encoding.dimension p.size
  · rw [if_pos hlen]
    obtain ⟨tour, hdecode, hsize, hnames⟩ :=
      Encoding.exists_decode p.network.size_pos he hlen
    exact p.exists_evaluate hdecode hsize hnames fun _ => hlen
  · rw [if_neg hlen]
    exact p.scoreWith_of_decode_error (Encoding.decode_of_length_ne he hlen)

theorem outcome_cityFault (he : p.encoding = .cities) : p.Outcome x (p.cityFault x) := by
  unfold cityFault
  have hread : ∀ result, Encoding.cities.decode p.size x = result → p.decode x = result := by
    intro result h
    rw [decode, he, h]
  cases hfind : x.find? fun v => !v.isFinite with
  | some v => exact p.scoreWith_of_decode_error (hread _ (Encoding.decode_cities_of_find hfind))
  | none =>
    have hfinite : ∀ v ∈ x, v.isFinite = true := by
      intro v hv
      simpa using List.find?_eq_none.mp hfind v hv
    have hdecode := hread _ (Encoding.decode_cities_of_finite hfinite)
    have hcount : ((x.filterMap Double.value?).map Double.towardZero).length = x.length := by
      rw [List.length_map, Encoding.length_filterMap_value hfinite]
    by_cases hlen : x.length = p.size
    · simp only [if_pos hlen]
      cases hstray : ((x.filterMap Double.value?).map Double.towardZero).find? (strays p.size) with
      | some i => exact p.evaluate_of_find hdecode (hcount.trans hlen) hstray
      | none =>
        have hnames : NamesCities p.size ((x.filterMap Double.value?).map Double.towardZero) := by
          intro i hi
          have hi := List.find?_eq_none.mp hstray i hi
          exact strays_eq_false.mp (by simpa using hi)
        apply p.exists_evaluate hdecode (hcount.trans hlen) hnames
        intro hfull
        rw [he] at hfull
        cases hfull
    · simp only [if_neg hlen]
      exact p.scoreWith_of_length_ne hdecode fun h => hlen (hcount.symm.trans h)

theorem outcome_firstFault (p : Problem Float) (x : List Float) : p.Outcome x (p.firstFault x) := by
  unfold firstFault
  cases he : p.encoding with
  | full => exact outcome_countFault (by simp [he])
  | randomKeys => exact outcome_countFault (by simp [he])
  | cities => exact outcome_cityFault he

theorem strayFault_ne_noArc (i : ℤ) : strayFault i ≠ .noArc := by
  unfold strayFault
  split <;> exact nofun

/-- No check of a chromosome is that a pair of cities has an arc. -/
theorem firstFault_ne_noArc (p : Problem Float) (x : List Float) :
    p.firstFault x ≠ some .noArc := by
  have hcount : p.countFault x ≠ some .noArc := by
    unfold countFault
    split <;> exact nofun
  unfold firstFault
  cases p.encoding with
  | full => exact hcount
  | randomKeys => exact hcount
  | cities =>
    unfold cityFault
    cases x.find? fun v => !v.isFinite with
    | some v =>
      simp only [ne_eq, Option.some.injEq]
      split <;> exact nofun
    | none =>
      dsimp only
      split
      · rw [ne_eq, Option.map_eq_some_iff]
        rintro ⟨i, -, hi⟩
        exact strayFault_ne_noArc i hi
      · exact nofun

/-- In bounds a chromosome is read as a tour whose entries name cities. -/
theorem exists_decode_of_inBounds (h : p.InBounds x) :
    ∃ tour, p.decode x = .ok tour ∧ tour.length = p.size ∧ NamesCities p.size tour := by
  obtain ⟨hlen, hcities⟩ := h
  by_cases he : p.encoding = .cities
  · have hvalue := hcities he
    have hfinite : ∀ v ∈ x, v.isFinite = true := by
      intro v hv
      obtain ⟨q, hq, -⟩ := hvalue v hv
      exact (Double.isFinite_iff v).mpr ⟨q, hq⟩
    refine ⟨_, by rw [decode, he, Encoding.decode_cities_of_finite hfinite], ?_, ?_⟩
    · rw [List.length_map, Encoding.length_filterMap_value hfinite]
      rw [he] at hlen
      exact Int.ofNat.inj hlen
    · intro i hi
      obtain ⟨q, hq, rfl⟩ := List.mem_map.mp hi
      obtain ⟨v, hv, hvq⟩ := List.mem_filterMap.mp hq
      obtain ⟨r, hr, hlo, hhi⟩ := hvalue v hv
      obtain rfl : r = q := Option.some.inj (hr.symm.trans hvq)
      rw [Double.towardZero_of_nonneg hlo]
      have hfloor : 0 ≤ ⌊r⌋ := Int.floor_nonneg.mpr hlo
      have hlt : ⌊r⌋ < p.size := by
        rw [Int.floor_lt]
        push_cast
        linarith
      omega
  · exact Encoding.exists_decode p.network.size_pos he hlen

/-- Evaluation ends with the first check that a chromosome fails, and with a score if it fails none;
it never asks for the arc of a pair that has none.  In bounds a chromosome fails no check, and each
part of the evaluation is defined, with as many constraints as declared, whether they hold or not.
-/
theorem evaluate_outcome (p : Problem Float) (x : List Float) :
    (∀ fault, p.evaluate x = .error fault ↔ p.firstFault x = some fault) ∧
    ((∃ s, p.evaluate x = .ok s) ↔ p.firstFault x = none) ∧
    p.evaluate x ≠ .error .noArc ∧
    (p.InBounds x → p.firstFault x = none ∧ ∃ tour ws length entries, p.decode x = .ok tour ∧
      p.network.windows (Route.ofTour p.size tour) = .ok ws ∧
      p.network.closedLength (Route.ofTour p.size tour) = .ok length ∧
      p.constraints x = .ok entries ∧
      (entries.length : ℤ) = (p.encoding.constraintDimensions p.size).1) := by
  have houtcome := p.outcome_firstFault x
  have harcs := mt (houtcome.error_iff .noArc).mp (p.firstFault_ne_noArc x)
  refine ⟨houtcome.error_iff, houtcome.ok_iff, harcs, ?_⟩
  intro hbounds
  obtain ⟨tour, hdecode, hlen, hnames⟩ := exists_decode_of_inBounds hbounds
  have hfull : p.encoding = .full → (x.length : ℤ) = p.encoding.dimension p.size :=
    fun _ => hbounds.1
  obtain ⟨ws, hws⟩ := p.network.exists_scan hlen hnames
  obtain ⟨length, hlength⟩ := p.network.exists_closedLength hlen hnames
  obtain ⟨entries, hentries, hcount⟩ := Encoding.exists_constraints p.network.size_pos hfull
  exact ⟨houtcome.ok_iff.mp (p.exists_evaluate hdecode hlen hnames hfull),
    tour, ws.1 :: ws.2, length, entries, hdecode, by rw [Network.windows, hws]; rfl, hlength,
    hentries, hcount⟩

/-- Three cities, of which the first is visited twice and the second is missed. -/
theorem evaluate_outcome_triangle :
    (⟨3, Network.triangle, .cities⟩ : Problem Float).InBounds [0, 0, 2] ∧
    ∃ s, (⟨3, Network.triangle, .cities⟩ : Problem Float).evaluate [0, 0, 2] = .ok s := by
  have hbounds : (⟨3, Network.triangle, .cities⟩ : Problem Float).InBounds [0, 0, 2] := by
    refine ⟨rfl, fun _ v hv => ?_⟩
    have hzero : Double.value? 0 = some 0 := by decide +kernel
    have htwo : Double.value? 2 = some 2 := by decide +kernel
    simp only [List.mem_cons, List.not_mem_nil, or_false] at hv
    rcases hv with rfl | rfl | rfl
    · exact ⟨0, hzero, by norm_num, by norm_num⟩
    · exact ⟨0, hzero, by norm_num, by norm_num⟩
    · exact ⟨2, htwo, by norm_num, by norm_num⟩
  obtain ⟨-, hok, -, hdefined⟩ := evaluate_outcome ⟨3, Network.triangle, .cities⟩ [0, 0, 2]
  exact ⟨hbounds, hok.mpr (hdefined hbounds).1⟩

/-- A city from `2 ^ 63` on is too large for an index, which is another fault than that of an index
without a city. -/
theorem evaluate_wide_city :
    (∀ v ∈ ([0, 1, 1e19] : List Float), v.isFinite = true) ∧
    Encoding.cities.decode 3 ([0, 1, 1e19] : List Float) = .ok [0, 1, 10 ^ 19] ∧
    (⟨3, Network.triangle, .cities⟩ : Problem Float).evaluate [0, 1, 1e19] = .error .wideIndex ∧
    (⟨3, Network.triangle, .cities⟩ : Problem Float).evaluate [0, 1, 1e19] ≠
      .error .outOfRange := by
  have hfinite : ∀ v ∈ ([0, 1, 1e19] : List Float), v.isFinite = true := by decide +kernel
  have hcut : (([0, 1, 1e19] : List Float).filterMap Double.value?).map Double.towardZero =
      [0, 1, 10 ^ 19] := by
    decide +kernel
  have hdecode := Encoding.decode_cities_of_finite (n := 3) hfinite
  rw [hcut] at hdecode
  have hwide : (⟨3, Network.triangle, .cities⟩ : Problem Float).evaluate [0, 1, 1e19] =
      .error .wideIndex :=
    evaluate_of_find ⟨3, Network.triangle, .cities⟩ hdecode rfl
      (show List.find? (strays 3) [0, 1, 10 ^ 19] = some (10 ^ 19) by decide)
  refine ⟨hfinite, hdecode, hwide, ?_⟩
  rw [hwide]
  exact nofun

end Problem

end CityTour
