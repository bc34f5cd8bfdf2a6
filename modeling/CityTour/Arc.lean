import CityTour.Scalar

/-! Arcs between cities: their places in a row, the walk along the selected ones, and the
constraints that make the walk a tour.  For every ordered pair of different cities a chromosome has
one entry, row by row with the diagonal left out; `index` is the place of an arc in that row. -/

namespace CityTour.Arc

variable {α : Type} {n : Nat}

/-- The place of the arc from one city to another. -/
def index (i j : Fin n) : Nat := i.val * (n - 1) + j.val - (if i < j then 1 else 0)

/-- The place of the arc between two integers, which must name different cities. -/
def index? (i j n : Int) : Except Fault Int :=
  if i ≠ j ∧ 0 ≤ i ∧ i < n ∧ 0 ≤ j ∧ j < n then
    .ok (i * (n - 1) + j - (if i < j then 1 else 0))
  else .error .noArc

/-- The entry of a chromosome for an arc, whose cities must be different. -/
def entry (x : List α) (i j : Fin n) : Except Fault α := do
  let place ← index? i.val j.val n
  match x[place.toNat]? with
  | some v => return v
  | none => throw .outOfRange

/-! ### The walk along selected arcs

An arc is selected when its entry is one.  From each city the walk takes the first selected arc, and
where there is none it goes to the city that was chosen last.  The label of a city is its last place
on the walk, counted from one; a city that the walk misses has the label zero. -/

variable [Scalar α]

/-- The first of some cities to which a selected arc leads from `here`. -/
def firstSelected (x : List α) (here : Fin n) : List (Fin n) → Except Fault (Option (Fin n))
  | [] => .ok none
  | j :: rest =>
    if j = here then firstSelected x here rest
    else do
      let selected ← entry x here j
      if selected == 1 then return some j else firstSelected x here rest

/-- The cities of the walk for a count of steps, from `here` on; `ahead` was chosen last. -/
def walkFrom (x : List α) : Nat → Fin n → Fin n → Except Fault (List (Fin n))
  | 0, _, _ => .ok []
  | steps + 1, here, ahead => do
    let chosen ← firstSelected x here (List.finRange n)
    let ahead := chosen.getD ahead
    return here :: (← walkFrom x steps ahead ahead)

/-- The walk from the first city with as many steps as there are cities. -/
def walk (n : Nat) (x : List α) : Except Fault (List (Fin n)) :=
  if h : 0 < n then walkFrom x n ⟨0, h⟩ ⟨0, h⟩ else .ok []

/-- The labels that a walk leaves on `n` cities. -/
def labelsOf (visits : List (Fin n)) : Vector Nat n :=
  visits.zipIdx.foldl (fun labels visit => labels.set visit.1 (visit.2 + 1)) (Vector.replicate n 0)

/-- The labels of the cities. -/
def labels (n : Nat) (x : List α) : Except Fault (Vector Nat n) := (walk n x).map labelsOf

/-! ### The constraints on a row of arcs

For each city one equation says that one arc leaves it and one that one arc enters it; for each arc
between two cities other than the first, an inequality relates the labels of the walk, so that no
cycle avoids the first city.  An equation holds where its entry is zero and an inequality where its
entry is not positive. -/

open Scalar

/-- The sum of an entry over all cities but one, in the order of the cities. -/
def sumOver {n : Nat} (i : Fin n) (term : Fin n → Except Fault α) : Except Fault α :=
  (List.finRange n).foldlM (fun total j =>
    if j = i then .ok total else return total + (← term j)) 0

/-- The entries of the arcs that leave each city, then those of the arcs that enter it, each summed
and less one. -/
def degree (n : Nat) (x : List α) : Except Fault (List α) := do
  let out ← (List.finRange n).mapM fun i => sumOver i fun j => entry x i j
  let into ← (List.finRange n).mapM fun i => sumOver i fun j => entry x j i
  return (out ++ into).map (· - 1)

/-- The pairs of different cities other than the first, in row-major order. -/
def innerPairs (n : Nat) : List (Fin n × Fin n) :=
  (List.finRange n).flatMap fun i =>
    ((List.finRange n).filter fun j => 0 < i.val ∧ 0 < j.val ∧ i ≠ j).map fun j => (i, j)

/-- The count of pairs of different cities other than the first, by its formula. -/
def innerCount (n : Int) : Int := (n - 1) * (n - 2)

/-- The inequality of an arc: the difference of two labels, which the arc has to make negative. -/
def orderEntry (n : Nat) (labels : Vector Nat n) (x : List α) (i j : Fin n) : Except Fault α := do
  let selected ← entry x i j
  return ofInt ((labels.get i : Int) - labels.get j) + ofInt (n + 1) * selected - ofInt n

/-- An array that is filled from its first slot on. -/
structure Slots (α : Type) where
  entries : List α
  /-- The first slot that is not filled. -/
  next : Nat

/-- An array of zeros, of which no slot is filled. -/
def Slots.zeros (size : Nat) : Slots α := ⟨List.replicate size 0, 0⟩

/-- Fills the next slot, if the array has one. -/
def Slots.put (s : Slots α) (v : α) : Except Fault (Slots α) :=
  if s.next < s.entries.length then .ok ⟨s.entries.set s.next v, s.next + 1⟩
  else .error .outOfRange

/-- The inequalities of all arcs, in an array with as many slots as the formula says. -/
def subtour (n : Nat) (x : List α) : Except Fault (List α) := do
  let u ← labels n x
  let filled ← (innerPairs n).foldlM (fun slots p => do slots.put (← orderEntry n u x p.1 p.2))
    (Slots.zeros (innerCount n).toNat)
  return filled.entries

/-- The equations and then the inequalities. -/
def constraints (n : Nat) (x : List α) : Except Fault (List α) := do
  return (← degree n x) ++ (← subtour n x)

end CityTour.Arc
