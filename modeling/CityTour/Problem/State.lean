import CityTour.Document
import CityTour.Network
import CityTour.Problem.Basic

/-! Problems as documents.  The state of a problem is an object with a version, the three parts of
the network and the key of the encoding; `Problem.ofState` checks the parts again. -/

namespace CityTour

open Document

namespace Problem

/-- A problem of the parts of a network and an encoding.  Without weights and values it is the
triangle. -/
def ofValues (weights values budget encoding : Value) : Except Fault (Problem Float) := do
  let ⟨n, N⟩ ← match weights, values with
    | .null, .null => .ok ⟨3, Network.triangle⟩
    | .null, _ | _, .null => refuse .weightsWithoutValues
    | weights, values => Network.ofValues weights values budget
  return ⟨n, N, ← Encoding.ofValue encoding⟩

/-- The version of the states that are written and read. -/
def stateVersion : Int := 1

/-- Numbers as a list of a document. -/
def listOf {n : Nat} (xs : Vector Float n) : Value := .list (xs.toList.map .real)

/-- The state of a problem. -/
def toState (p : Problem Float) : Value :=
  let fields : List (String × Value) :=
    [("version", .int stateVersion),
      ("weights", .list (p.network.weights.rows.toList.map listOf)),
      ("values", listOf p.network.values), ("max_path_length", .real p.network.budget),
      ("encoding", .ofString p.encoding.key)]
  .object (fields.map fun f => (Text.Symbol.ofString f.1, f.2))

/-- Whether a value is equal to the version of states. -/
def isStateVersion : Value → Bool
  | .int i => i == stateVersion
  | .real x => x == Double.ofInt stateVersion
  | .bool b => b
  | _ => false

/-- A field that a state must have. -/
def stateField (fields : List (List Text.Symbol × Value)) (name : String) : Except Fault Value :=
  match lookup? name fields with
  | some v => .ok v
  | none => .error (.missingField name)

/-- The problem of a state. -/
def ofState : Value → Except Fault (Problem Float)
  | .object fields => do
    let version := (lookup? "version" fields).getD .null
    if isStateVersion version then
      ofValues (← stateField fields "weights") (← stateField fields "values")
        (← stateField fields "max_path_length") (← stateField fields "encoding")
    else refuse (.unsupportedVersion version)
  | _ => .error .notAnObject

/-- The text of the state of a problem. -/
def toText (p : Problem Float) : String := write p.toState

/-- The problem of the text of a state. -/
def ofText (text : List Char) : Except Fault (Problem Float) :=
  match read text with
  | .ok v => ofState v
  | .error .malformed => .error .malformedDocument
  | .error .oversized => .error .oversizedInteger

end Problem

end CityTour

/-! ### Problems described for the reader

A description has sizes, values, budget and the first rows of weights. -/

namespace CityTour.Problem

open Document

variable (p : Problem Float)

/-- How many rows of weights a description shows. -/
def shownRows : Nat := 7

/-- The rows of weights of a description; three dots stand for the rest. -/
def rowLines : List String :=
  ((p.network.weights.rows.toList.take shownRows).map fun row =>
    "\t\t" ++ displayReals row.toList) ++ (if shownRows < p.size then ["\t\t..."] else [])

/-- What a description says after the title. -/
def details : String :=
  "\n".intercalate (["",
    "\tNumber of cities: " ++ toString p.size,
    "\tEncoding: " ++ p.encoding.title,
    "\tCities Values: " ++ displayReals p.network.values.toList,
    "\tMax path length: " ++ String.ofList (Written.plain p.network.budget),
    "\tWeight Matrix: "] ++ p.rowLines) ++ "\n"

/-- The whole description of a problem. -/
def description : String := "Problem name: " ++ title ++ p.details

end CityTour.Problem
