import CityTour.Fault
import CityTour.Number.Decimal

/-! The numbers that weights, values and chromosomes are made of.  The library computes with any
type that has the operations of `Scalar`; doubles are the instance that programs run on.  No law is
assumed, so that rounding and values that are no numbers are covered. -/

namespace CityTour

/-- A type of numbers with arithmetic, comparisons and conversion from and to integers. -/
class Scalar (α : Type) extends Zero α, One α, Add α, Sub α, Neg α, Mul α, Div α, LE α, LT α,
    BEq α where
  /-- The number that an integer stands for. -/
  ofInt : Int → α
  /-- The integer part, toward zero. -/
  truncate : α → Except Fault Int
  decideLE : DecidableLE α
  decideLT : DecidableLT α

attribute [reducible, instance] Scalar.decideLE Scalar.decideLT

namespace Scalar

variable {α : Type} [Scalar α]

/-- Whether a value is no number: it differs from itself. -/
def isUndefined (x : α) : Bool := !(x == x)

/-- Whether a number is an integer, compared without rounding the integer to a number. -/
def isInteger (x : α) (i : Int) : Bool :=
  match truncate x with
  | .ok k => k == i && ofInt k == x
  | .error _ => false

/-- The absolute value. -/
def magnitude (x : α) : α := if x < 0 then -x else x

/-- The lesser of two numbers, the first of equal ones; a value that is no number wins. -/
def least (x y : α) : α :=
  if isUndefined x then x else if isUndefined y then y else if y < x then y else x

/-- The order of sorting: by `≤`, and values that are no numbers come last and tie. -/
def sortsBefore (x y : α) : Bool := isUndefined y || decide (x ≤ y)

/-- The sum from left to right, starting from zero. -/
def sum (xs : List α) : α := xs.foldl (· + ·) 0

end Scalar

/-- The integer part of a double, toward zero. -/
def Double.truncate (x : Float) : Except Fault Int :=
  match reading x with
  | .undefined => .error .undefinedNumber
  | .infinite _ => .error .unboundedNumber
  | .finite negative mantissa exponent => .ok (truncation negative mantissa exponent)

instance : Scalar Float where
  zero := 0
  one := 1
  ofInt := Double.ofInt
  truncate := Double.truncate
  decideLE := inferInstance
  decideLT := inferInstance

end CityTour
