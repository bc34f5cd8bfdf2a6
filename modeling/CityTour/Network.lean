import CityTour.Tour
import CityTour.Window

/-! Networks of cities.  A network joins every two of its cities by an edge, gives every city a
value and sets a budget for the length of a walk.  `Weights.ofGrid?` and `Network.ofGrids?` check
the parts in a fixed order and say which condition is the first to fail; a `Network` carries the
proofs that they hold. -/

namespace CityTour

variable {α : Type} [Scalar α] {n : Nat}

open Scalar

/-- The edge weights of a network: zero from a city to itself, and neither zero nor undefined
between two cities. -/
structure Weights (α : Type) [Scalar α] (n : Nat) where
  rows : Vector (Vector α n) n
  size_pos : 0 < n
  diagonal : ∀ i : Fin n, ((rows.get i).get i == 0) = true
  defined : ∀ i j : Fin n, i ≠ j → isUndefined ((rows.get i).get j) = false
  nonzero : ∀ i j : Fin n, i ≠ j → ((rows.get i).get j == 0) = false

namespace Weights

/-- The weight of the edge from one city to another. -/
def between (w : Weights α n) (i j : Fin n) : α := (w.rows.get i).get j

/-- Rows of weights that form a network, or the first condition that they break. -/
def ofRows? (rows : Vector (Vector α n) n) : Except Fault (Weights α n) :=
  if hn : 0 < n then
    if hd : ∀ i : Fin n, ((rows.get i).get i == 0) = true then
      if hu : ∀ i j : Fin n, i ≠ j → isUndefined ((rows.get i).get j) = false then
        if hz : ∀ i j : Fin n, i ≠ j → ((rows.get i).get j == 0) = false then
          .ok ⟨rows, hn, hd, hu, hz⟩
        else refuse .zeroWeight
      else refuse .undefinedWeight
    else refuse .diagonalNotZero
  else refuse .noCities

/-- The place of an entry of a square array. -/
theorem cell_lt (i j : Fin n) : i.val * n + j.val < cells [n, n] := by
  have h : (i.val + 1) * n ≤ n * n := Nat.mul_le_mul_right n i.isLt
  rw [Nat.add_mul, Nat.one_mul] at h
  simp only [cells, Nat.mul_one]
  omega

/-- A square array as rows. -/
def squareRows (entries : Vector α (cells [n, n])) : Vector (Vector α n) n :=
  Vector.ofFn fun i => Vector.ofFn fun j =>
    entries.get ⟨i.val * n + j.val, cell_lt i j⟩

/-- The weights that an array stands for. -/
def ofGrid? (g : Grid α) : Except Fault (Sigma (Weights α)) :=
  match g with
  | ⟨[n, m], entries⟩ =>
    if h : n = m then (ofRows? (squareRows (h ▸ entries))).map fun w => ⟨m, w⟩
    else refuse .notSquare
  | _ => refuse .notSquare

end Weights

/-- A network of `n` cities with the values of the cities and a budget. -/
structure Network (α : Type) [Scalar α] (n : Nat) where
  weights : Weights α n
  values : Vector α n
  budget : α
  budget_defined : isUndefined budget = false
  budget_nonneg : ¬ budget < 0

namespace Network

/-- The values of `n` cities that an array stands for. -/
def valuesOfGrid? (n : Nat) (g : Grid α) : Except Fault (Vector α n) :=
  match g with
  | ⟨[m], entries⟩ =>
    if h : m = n then .ok (entries.cast (by simp [cells, h])) else refuse .valueCount
  | _ => refuse .valueCount

/-- A network of weights, values and a budget, which must be a number and not negative. -/
def ofParts? (w : Weights α n) (values : Vector α n) (budget : α) : Except Fault (Network α n) :=
  if h : isUndefined budget = false ∧ ¬ budget < 0 then .ok ⟨w, values, budget, h.1, h.2⟩
  else refuse .badBudget

/-- The network of an array of weights, an array of values and a budget. -/
def ofGrids? (weights values : Grid α) (budget : α) : Except Fault (Sigma (Network α)) := do
  let ⟨n, w⟩ ← Weights.ofGrid? weights
  let v ← valuesOfGrid? n values
  return ⟨n, ← ofParts? w v budget⟩

/-- A network has a city. -/
theorem size_pos (N : Network α n) : 0 < n := N.weights.size_pos

variable (N : Network α n)

/-- The weight of the edge from one city to another. -/
def weight (i j : Fin n) : α := N.weights.between i j

/-- The value of a city. -/
def value (i : Fin n) : α := N.values.get i

/-- The least value of a city, the first of equal ones. -/
def leastValue : α :=
  match N.values.toList with
  | [] => 0
  | v :: rest => rest.foldl least v

/-- The weight of the edge between two looked-up entries.  Both have to be indices before either
can be outside. -/
def edge : Lookup n → Lookup n → Except Fault α
  | .city i, .city j => .ok (N.weight i j)
  | .unusable fault, _ => .error fault
  | _, .unusable fault => .error fault
  | _, _ => .error .outOfRange

/-- The weight of the edge between two stops. -/
def distance (a b : Stop) : Except Fault α := N.edge (.ofStop n a) (.ofStop n b)

/-- The length of the closed walk along a route. -/
def closedLength (r : Route n) : Except Fault α := closedSum N.edge r

/-- The length of the closed walk along a route, added up from the route and its rolled copy.  All
entries have to be indices before any edge is looked at. -/
def rolledLength (r : Route n) : Except Fault α :=
  if r.any Lookup.isUnusable then .error .wideTour else rolledSum N.edge r

/-- The entry at a position of a route, counted around the cycle. -/
def cityOn (r : Route n) (k : Nat) : Lookup n := (r[k % n]?).getD .outside

/-- The value of the city at a position of a route. -/
def valueOn (r : Route n) (k : Nat) : Except Fault α :=
  match cityOn r k with
  | .city i => .ok (N.value i)
  | .outside => .error .outOfRange
  | .unusable fault => .error fault

/-- The length of the edge that leaves a position of a route. -/
def lengthOn (r : Route n) (k : Nat) : Except Fault α := N.edge (cityOn r k) (cityOn r (k + 1))

/-- The candidate windows of a route through as many stops as there are cities. -/
def scan (r : Route n) : Except Fault (Window α × List (Window α)) :=
  if r.length = n then Window.scan n (N.valueOn r) (N.lengthOn r) N.budget N.size_pos
  else refuse .tourLength

/-- All candidate windows of a route. -/
def windows (r : Route n) : Except Fault (List (Window α)) :=
  (N.scan r).map fun ws => ws.1 :: ws.2

/-- The best window of a route, its ends as positions on the cycle. -/
def bestWindow (r : Route n) : Except Fault (Window α) :=
  (N.scan r).map fun ws =>
    let w := Window.best ws.1 ws.2
    { w with left := w.left % n, right := w.right % n }

/-- Whether two networks have equal budgets, weights and values. -/
def same {m : Nat} (N : Network α n) (M : Network α m) : Bool :=
  N.budget == M.budget && (if h : m = n then
    N.weights.rows == h ▸ M.weights.rows && N.values == h ▸ M.values else false)

end Network

/-- Three cities of value one, an edge of length one between any two, and a budget of one. -/
def Network.triangle : Network Float 3 where
  weights :=
    { rows := #v[#v[0, 1, 1], #v[1, 0, 1], #v[1, 1, 0]]
      size_pos := by decide
      diagonal := by decide +kernel
      defined := by decide +kernel
      nonzero := by decide +kernel }
  values := #v[1, 1, 1]
  budget := 1
  budget_defined := by decide +kernel
  budget_nonneg := by decide +kernel

/-! ### Networks from document values

The values are nested lists of numbers, or of values that stand for numbers. -/

open Document

/-- The weights that a value stands for.  A value that is no array of numbers is no square one. -/
def Weights.ofValue (v : Value) : Except Fault (Sigma (Weights Float)) :=
  match Grid.ofValue v with
  | .ok g => ofGrid? g
  | .error .unboundedNumber => .error .unboundedNumber
  | .error _ => refuse .notSquare

/-- The network of a value for the weights, one for the values of the cities and one for the
budget, checked in this order. -/
def Network.ofValues (weights values budget : Value) : Except Fault (Sigma (Network Float)) := do
  let ⟨n, w⟩ ← Weights.ofValue weights
  let v ← valuesOfGrid? n (← Grid.ofValue values)
  return ⟨n, ← ofParts? w v (← Double.ofValue budget)⟩

end CityTour
