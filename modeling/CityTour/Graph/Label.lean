import CityTour.Document
import CityTour.Fault
import CityTour.Number.Decimal

/-! Labels of nodes.  A label is a number or a text; numbers are compared by their exact values, so
that an integer and a double of the same value are one label, and texts symbol by symbol. -/

namespace CityTour

open Document Text

/-- A label of a node. -/
inductive Label
  | below
  | number (q : Rat)
  | above
  | text (s : List Symbol)
  deriving DecidableEq

namespace Label

/-- The exact value of a finite magnitude. -/
def exactValue (negative : Bool) (mantissa : Nat) (exponent : Int) : Rat :=
  let q : Rat := if exponent < 0 then mkRat mantissa (Nat.pow 2 (-exponent).toNat)
    else (mantissa * Nat.pow 2 exponent.toNat : Nat)
  if negative then -q else q

/-- The label that a value stands for; a value that is neither a number nor a text is refused. -/
def ofValue : Value → Except Fault Label
  | .int i => .ok (.number i)
  | .bool b => .ok (.number (if b then 1 else 0))
  | .real x =>
    match Double.reading x with
    | .finite negative mantissa exponent => .ok (.number (exactValue negative mantissa exponent))
    | .infinite negative => .ok (if negative then .below else .above)
    | .undefined => .error .undefinedNumber
  | .text s => .ok (.text s)
  | .null => .error .noLabel
  | .list _ | .object _ => .error .notANumber

/-- Whether a label is a text. -/
def isText : Label → Bool
  | .text _ => true
  | _ => false

/-- The order of labels: numbers by value, then texts. -/
def before : Label → Label → Bool
  | .below, _ => true
  | _, .below => false
  | .number p, .number q => decide (p ≤ q)
  | .number _, _ => true
  | .above, .number _ => false
  | .above, _ => true
  | .text s, .text t => Symbol.before s t
  | .text _, _ => false

/-- Labels in order; numbers and texts have no order in common. -/
def sort (labels : List Label) : Except Fault (List Label) :=
  if labels.any isText && labels.any fun l => !l.isText then .error .mixedLabels
  else .ok (labels.mergeSort before)

end Label

end CityTour
