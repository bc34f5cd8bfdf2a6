import CityTour.Problem.Basic
import CityTour.Problem.State

/-! A search by drawing tours through points of the plane.  Five batches of fifty tours each are
evaluated one after the other, and each of them is reported on one line. -/

namespace CityTour.RandomSearch

open Document

/-- The distance between two points. -/
def distance (a b : List Float) : Float :=
  (Scalar.sum (a.zipWith (fun x y => (x - y) * (x - y)) b)).sqrt

/-- The distances between all points, as the rows of an array. -/
def distances (points : List (List Float)) : Value :=
  .list (points.map fun a => .list (points.map fun b => .real (distance a b)))

/-- The points that a value stands for, each of them one row of an array. -/
def pointsOf (v : Value) : Except Fault (List (List Float)) := do
  let g ← Grid.ofValue v
  match g.shape with
  | [n, width] =>
    return (List.range n).map fun i => (g.entries.toList.drop (i * width)).take width
  | _ => throw .outOfRange

/-- How much of a tour may be travelled. -/
def budget : Float := 1.5

/-- The problem of some points with values. -/
def problem (points values : Value) : Except Fault (Problem Float) := do
  Problem.ofValues (distances (← pointsOf points)) values (.real budget)
    (.ofString Encoding.randomKeys.key)

/-- The count of batches. -/
def batches : Nat := 5

/-- The count of tours in a batch. -/
def batchSize : Nat := 50

/-- The count of workers. -/
def workers : Int := 4

/-- The line on a batch, from its number, its summary and its best score. -/
def batchLine (number : Nat) (s : Summary) (best : Score Float) : String :=
  "batch " ++ toString number ++ ": best=" ++ String.ofList (Written.places 2 s.best) ++ " mean=" ++
    String.ofList (Written.places 2 s.mean) ++ " window=" ++ toString best.start ++ "->" ++
    toString best.stop ++ " value=" ++ String.ofList (Written.places 0 best.value)

/-- The report on one batch, its tours drawn behind those of the batches before. -/
def batch (p : Problem Float) (draw : Nat → List Int) (k : Nat) : Except Fault (List String) := do
  let xs ← p.sample draw (k * batchSize) batchSize
  match ← p.evaluateAll workers xs with
  | [] => return []
  | first :: later =>
    let best := firstLeast (·.fitness) first later
    return [batchLine (k + 1) (Summary.ofScores (first :: later)) best]

/-- The report on all batches. -/
def report (points values : Value) (draw : Nat → List Int) :
    Except Fault String := do
  let p ← problem points values
  let lines ← (List.range batches).mapM (batch p draw)
  return String.join (lines.flatten.map (· ++ "\n"))

end CityTour.RandomSearch
