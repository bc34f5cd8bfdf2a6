import CityTour.Encoding
import CityTour.Network

/-! The problem of selecting cities on a closed tour.  A problem is a network and the encoding of
its chromosomes.  The fitness of a chromosome is the value of the best window of its tour, with the
unused share of the budget to break ties, negated so that lower is better. -/

namespace CityTour

open Scalar

/-- A network of some size and an encoding of tours through it. -/
structure Problem (α : Type) [Scalar α] where
  size : Nat
  network : Network α size
  encoding : Encoding

/-- What is known of a chromosome: its fitness, the best window of its tour with both ends on the
cycle, the length of the whole tour, and whether the constraints hold. -/
structure Score (α : Type) where
  fitness : α
  value : α
  saved : α
  start : Nat
  stop : Nat
  length : α
  feasible : Bool

namespace Problem

variable {α : Type} [Scalar α] (p : Problem α)

/-- The title that reports give to a problem. -/
def title : String := "City-selection Travelling Salesman Problem (TSP-CS)"

/-- The same network with another encoding. -/
def recode (e : Encoding) : Problem α := { p with encoding := e }

/-- Whether two problems have the same encoding and equal networks. -/
def same (q : Problem α) : Bool := p.encoding == q.encoding && p.network.same q.network

/-- The tour that a chromosome stands for. -/
def decode (x : List α) : Except Fault (List Int) := p.encoding.decode p.size x

/-- The chromosome of a tour. -/
def encode (tour : List Int) : Except Fault (List α) := p.encoding.encode p.size tour

/-- The constraints on a chromosome, the inequalities last. -/
def constraints (x : List α) : Except Fault (List α) := p.encoding.constraints p.size x

/-- Whether the constraints on a chromosome hold within a tolerance. -/
def feasible (x : List α) (tolerance : α) : Except Fault Bool := do
  let entries ← p.constraints x
  return Encoding.withinTolerance (p.encoding.constraintDimensions p.size).2 tolerance entries

/-- The share of the budget that is left; a budget of zero leaves nothing to save. -/
def residual (saved : α) : α :=
  if p.network.budget == 0 then 0 else saved / p.network.budget

/-- The fitness of a window of some value that leaves some budget. -/
def fitness (value saved : α) : α :=
  -(value + (1 - p.network.leastValue) * ofInt p.size + p.residual saved)

/-- The best window of the tour of a chromosome. -/
def bestWindow (x : List α) : Except Fault (Window α) := do
  p.network.bestWindow (Route.ofTour p.size (← p.decode x))

/-- The fitness of a chromosome. -/
def evaluateFitness (x : List α) : Except Fault α := do
  let w ← p.bestWindow x
  return p.fitness w.value w.saved

/-- The score of a chromosome, with the length of the tour measured by a given function. -/
def scoreWith (measure : Route p.size → Except Fault α) (x : List α) :
    Except Fault (Score α) := do
  let route := Route.ofTour p.size (← p.decode x)
  let w ← p.network.bestWindow route
  let length ← measure route
  return ⟨p.fitness w.value w.saved, w.value, w.saved, w.left, w.right, length,
    ← p.feasible x 0⟩

/-- The score of a chromosome. -/
def evaluate (x : List α) : Except Fault (Score α) := p.scoreWith p.network.closedLength x

/-- The score of a chromosome, with the length of the tour added up from its rolled copy. -/
def evaluateRolled (x : List α) : Except Fault (Score α) := p.scoreWith p.network.rolledLength x

end Problem

/-! ### Many chromosomes at once

A population is scored in batches of as many chromosomes as there are workers, and the scores come
in the order of the chromosomes.  Random tours are drawn from a sequence of permutations. -/

variable {α : Type} [Scalar α]

/-- The size of a batch: at least one, and no more than there is to do. -/
def poolSize (workers : Int) (tasks : Nat) : Nat := max 1 (min workers tasks).toNat

/-- A function applied batch after batch, the first failure ending it. -/
def inBatches {β γ : Type} (size : Nat) (h : 0 < size) (f : β → Except Fault γ) (xs : List β) :
    Except Fault (List γ) :=
  match xs with
  | [] => .ok []
  | x :: rest => do
    let done ← ((x :: rest).take size).mapM f
    return done ++ (← inBatches size h f ((x :: rest).drop size))
termination_by xs.length
decreasing_by simp; omega

/-- The scores of some chromosomes, in their order. -/
def Problem.evaluateAll (p : Problem α) (workers : Int) (xs : List (List α)) :
    Except Fault (List (Score α)) :=
  inBatches (poolSize workers xs.length) (by unfold poolSize; omega) p.evaluateRolled xs

/-- The chromosomes of a count of tours, drawn one after the other from place `start` on. -/
def Problem.sample (p : Problem α) (draw : Nat → List Int) (start count : Nat) :
    Except Fault (List (List α)) :=
  (List.range count).mapM fun k => p.encode (draw (start + k))

/-- The draws of a script, which starts over when it is at its end. -/
def scripted (script : List (List Int)) (k : Nat) : List Int :=
  (script[k % script.length]?).getD []

/-- The first entry with the least key. -/
def firstLeast {β : Type} (key : β → α) (first : β) (later : List β) : β :=
  later.foldl (fun best b => if key b < key best then b else best) first

/-- What is reported of many scores: the least fitness, the mean fitness, and the share of feasible
ones. -/
structure Summary where
  best : Float
  mean : Float
  feasible : Float

/-- The summary of some fitnesses, each with its feasibility.  Without any, best and mean are
infinite. -/
def Summary.ofFitnesses : List (Float × Bool) → Summary
  | [] => ⟨Double.infinity false, Double.infinity false, 0⟩
  | first :: rest =>
    let all := first :: rest
    let count := Double.ofInt all.length
    { best := (firstLeast (·.1) first rest).1
      mean := Scalar.sum (all.map (·.1)) / count
      feasible := Double.ofInt (all.countP (·.2)) / count }

/-- The summary of some scores. -/
def Summary.ofScores (scores : List (Score Float)) : Summary :=
  ofFitnesses (scores.map fun s => (s.fitness, s.feasible))

end CityTour
