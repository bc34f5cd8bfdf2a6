import CityTour.Grid

/-! Tours.  A tour lists the cities in the order of a closed walk; a negative index counts from the
last city back.  `Route` is a tour with its entries looked up.  `closedSum` adds up the edges of the
closed walk, the one from the last entry back to the first included; `rolledSum` adds the same edges
from the tour and its copy rolled by one place. -/

namespace CityTour

/-- An entry of a tour as it is given: an integer, or a real number, which indexes no city. -/
inductive Stop
  | index (i : Int)
  | real (x : Float)

/-- The integer that a stop is equal to. -/
def Stop.whole? : Stop → Option Int
  | .index i => some i
  | .real x =>
    match Double.truncate x with
    | .ok i => if Double.ofInt i == x then some i else none
    | .error _ => none

/-- The city with an index, counted from the end if it is negative. -/
def cityAt? (n : Nat) (i : Int) : Option (Fin n) :=
  if h : 0 ≤ i ∧ i < n then some ⟨i.toNat, by omega⟩
  else if h : -n ≤ i ∧ i < 0 then some ⟨(i + n).toNat, by omega⟩
  else none

/-- What an entry of a tour is among `n` cities. -/
inductive Lookup (n : Nat)
  | city (i : Fin n)
  /-- An index that names no city. -/
  | outside
  /-- No index, with the fault of using it as one. -/
  | unusable (fault : Fault)

/-- What an integer is among `n` cities. -/
def Lookup.ofInt (n : Nat) (i : Int) : Lookup n :=
  match cityAt? n i with
  | some c => .city c
  | none => if Grid.fitsIndex i then .outside else .unusable (Grid.indexFault i)

/-- What a stop is among `n` cities. -/
def Lookup.ofStop (n : Nat) : Stop → Lookup n
  | .index i => ofInt n i
  | .real _ => .unusable .outOfRange

/-- Whether an entry is no index. -/
def Lookup.isUnusable {n : Nat} : Lookup n → Bool
  | .unusable _ => true
  | .city _ | .outside => false

/-- A tour with its entries looked up. -/
abbrev Route (n : Nat) := List (Lookup n)

/-- The route of a tour. -/
def Route.ofTour (n : Nat) (tour : List Int) : Route n := tour.map (Lookup.ofInt n)

/-- The route of a list of stops. -/
def Route.ofStops (n : Nat) (stops : List Stop) : Route n := stops.map (Lookup.ofStop n)

/-- Whether a tour visits each of `n` cities once. -/
def visitsAll (n : Int) (tour : List Int) : Bool :=
  tour.length == n && tour.mergeSort (fun a b => decide (a ≤ b)) ==
    (List.range n.toNat).map Int.ofNat

section Sums

variable {α β : Type} [Zero α] [Add α]

/-- The sum of the edges of a closed walk, from the one that leaves the first entry on. -/
def closedSum (edge : β → β → Except Fault α) (walk : List β) : Except Fault α :=
  (List.finRange walk.length).foldlM (fun total i => do
    let length ← edge walk[i] (walk.get ⟨(i.val + 1) % walk.length, Nat.mod_lt _ i.pos⟩)
    return total + length) 0

/-- The sum of the edges between a walk and its copy rolled by one place. -/
def rolledSum (edge : β → β → Except Fault α) (walk : List β) : Except Fault α :=
  (walk.zip (walk.drop 1 ++ walk.take 1)).foldlM (fun total leg => do
    let length ← edge leg.1 leg.2
    return total + length) 0

end Sums

/-- The index that a stop is. -/
def Stop.toIndex : Stop → Except Fault Int
  | .index i => if Grid.fitsIndex i then .ok i else .error (Grid.indexFault i)
  | .real _ => .error .outOfRange

/-- The length of a closed walk by an array of distances with rows and columns of any count.  In an
array of more dimensions no pair of indices is a distance. -/
def Grid.closedLength (distances : Grid Float) (stops : List Stop) : Except Fault Float := do
  let length ← closedSum (fun a b => do distances.entryAt (← a.toIndex) (← b.toIndex)) stops
  if 2 < distances.shape.length ∧ stops ≠ [] then .error .partialIndex else .ok length

end CityTour
