import CityTour.Scalar

/-! The benchmark ZDT1, and the sums in blocks that it is computed with.  Few numbers are added one
after the other; up to 128 are added in eight lanes that are joined in pairs; more are split in two
parts, the first a multiple of eight long, and the sums of the parts are added.  The order matters
to rounding only. -/

namespace CityTour.PairwiseSum

variable {α : Type} [Scalar α]

/-- Eight lanes, each increased by its number of every full block of eight; the rest is left over.
-/
def fillLanes (lanes : Vector α 8) (xs : List α) : Vector α 8 × List α :=
  if h : 8 ≤ xs.length then
    fillLanes (Vector.ofFn fun k => lanes[k] + xs.get ⟨k, by omega⟩) (xs.drop 8)
  else (lanes, xs)
termination_by xs.length
decreasing_by simp; omega

/-- The lanes joined in pairs. -/
def joinLanes (r : Vector α 8) : α :=
  ((r[0] + r[1]) + (r[2] + r[3])) + ((r[4] + r[5]) + (r[6] + r[7]))

/-- The most numbers that are added without a split. -/
def blockLimit : Nat := 128

/-- The sum before zero is added to it. -/
def blocks (xs : List α) : α :=
  if h : xs.length < 8 then xs.foldl (· + ·) (-0)
  else if hb : xs.length ≤ blockLimit then
    let filled := fillLanes (Vector.ofFn fun k : Fin 8 => xs.get ⟨k, by omega⟩) (xs.drop 8)
    filled.2.foldl (· + ·) (joinLanes filled.1)
  else
    let half := xs.length / 2 - xs.length / 2 % 8
    blocks (xs.take half) + blocks (xs.drop half)
termination_by xs.length
decreasing_by
  all_goals
    simp only [blockLimit] at hb
    simp only [List.length_take, List.length_drop]
    omega

/-- The sum of some numbers. -/
def sum (xs : List α) : α := blocks xs + 0

end CityTour.PairwiseSum

/-! ### The benchmark ZDT1 with two objectives on the unit box

With `g = 1 + 9 * sum / (n - 1)` over all variables but the first, the objectives are the first
variable `f` and `g * (1 - sqrt (f / g))`; on the front `g` is one. -/

namespace CityTour

/-- A type of numbers with square roots. -/
class SquareRoot (α : Type) where
  sqrt : α → α

instance : SquareRoot Float := ⟨Float.sqrt⟩

/-- The benchmark with a count of variables. -/
structure Zdt1 where
  dimension : Nat
  two_le : 2 ≤ dimension

namespace Zdt1

open Scalar SquareRoot

/-- The name by which reports call the benchmark. -/
def title : String := "ZDT1"

/-- The count of variables unless another is given. -/
def defaultDimension : Int := 30

/-- The benchmark with a count of variables, of which there must be two. -/
def ofDimension? (n : Int) : Except Fault Zdt1 :=
  if h : 2 ≤ n then .ok ⟨n.toNat, by omega⟩ else refuse .fewVariables

variable {α : Type} [Scalar α] (z : Zdt1)

/-- The least and the greatest values of the variables. -/
def bounds : List α × List α := (List.replicate z.dimension 0, List.replicate z.dimension 1)

/-- The distance function of a point, one on the front. -/
def spread (x : List α) : Except Fault α :=
  if x.length = z.dimension then
    .ok (1 + ofInt 9 * PairwiseSum.sum (x.drop 1) / ofInt (z.dimension - 1))
  else refuse (.decisionSize z.dimension x.length)

/-- The objectives of a point. -/
def objectives [SquareRoot α] (x : List α) : Except Fault (α × α) := do
  let g ← z.spread x
  let f := x.headD 0
  if g == 0 then throw .divisionByZero
  let share := f / g
  if share < 0 then throw .negativeRoot
  return (f, g * (1 - sqrt share))

/-- How far a point is from the front. -/
def convergence (x : List α) : Except Fault α := do return (← z.spread x) - 1

end Zdt1

end CityTour
