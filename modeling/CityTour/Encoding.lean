import CityTour.Arc
import CityTour.Tour

/-! The three encodings of a tour as a row of numbers, a chromosome: one entry for every arc, one
sorting key for every city, or the cities themselves.  The layout of a chromosome is given by
formulas for any integer count of cities. -/

namespace CityTour

open Document Scalar

/-- How a chromosome stands for a tour. -/
inductive Encoding
  | full
  | randomKeys
  | cities
  deriving DecidableEq, Repr

namespace Encoding

/-- The name by which inputs call an encoding. -/
def key : Encoding → String
  | full => "full"
  | randomKeys => "randomkeys"
  | cities => "cities"

/-- The name by which reports call an encoding. -/
def title : Encoding → String
  | full => "FULL"
  | randomKeys => "RANDOMKEYS"
  | cities => "CITIES"

/-- All encodings. -/
def all : List Encoding := [full, randomKeys, cities]

/-- A letter in lower case: the letters of ASCII, and the Kelvin sign. -/
def lowerLetter (c : Char) : Char := if c = '\u212a' then 'k' else c.toLower

/-- The encoding with a key, in any case of letters. -/
def ofKey? (s : String) : Option Encoding :=
  let lowered := String.ofList (s.toList.map lowerLetter)
  all.find? fun e => e.key == lowered

/-- The encoding that a value names. -/
def ofValue : Value → Except Fault Encoding
  | .text s =>
    match (Text.Symbol.string? s).bind ofKey? with
    | some e => .ok e
    | none => refuse (.unknownEncoding (.text s))
  | v => refuse (.unknownEncoding v)

/-- The count of entries of a chromosome. -/
def dimension (e : Encoding) (n : Int) : Int :=
  match e with
  | full => n * (n - 1)
  | randomKeys | cities => n

/-- The count of entries that must be whole numbers. -/
def integerDimension (e : Encoding) (n : Int) : Int :=
  match e with
  | full => n * (n - 1)
  | randomKeys => 0
  | cities => n

/-- The count of constraints, and how many of them, the last ones, are inequalities. -/
def constraintDimensions (e : Encoding) (n : Int) : Int × Int :=
  match e with
  | full => (n * (n - 1) + 2, (n - 1) * (n - 2))
  | randomKeys => (0, 0)
  | cities => (1, 0)

/-- A list of one number, which cannot have fewer than no entries. -/
def filled {α : Type} (size : Int) (x : α) : Except Fault (List α) :=
  if size < 0 then .error .negativeSize else .ok (List.replicate size.toNat x)

/-- The least and the greatest values of the entries. -/
def bounds {α : Type} [Scalar α] (e : Encoding) (n : Int) : Except Fault (List α × List α) := do
  let top : α := match e with
    | full | randomKeys => 1
    | cities => ofInt (n - 1)
  return (← filled (e.dimension n) 0, ← filled (e.dimension n) top)

end Encoding

end CityTour

/-! ### Reading tours from chromosomes and writing them back

Arcs are followed from the first city; keys are sorted, equal ones by the number of the city; cities
are cut to integers and not checked.  Writing accepts exactly the tours that visit every city once.
-/

namespace CityTour.Encoding

variable {α : Type} [Scalar α]

open Scalar

/-- A chromosome must have as many entries as the encoding says. -/
def checkSize (e : Encoding) (n : Int) (x : List α) : Except Fault Unit :=
  if x.length = e.dimension n then .ok ()
  else refuse (.chromosomeSize e.title (e.dimension n) x.length)

/-- A count of cities as the size of an array. -/
def size (n : Int) : Except Fault Nat := if n < 0 then .error .negativeSize else .ok n.toNat

/-- Numbered keys in sorting order: by key, and of tied keys the lower number first. -/
def ranksBefore (a b : α × Nat) : Bool :=
  if sortsBefore a.1 b.1 then
    if sortsBefore b.1 a.1 then decide (a.2 ≤ b.2) else true
  else false

/-- The numbers of some keys in sorting order. -/
def sortedPlaces (keys : List α) : List Nat := (keys.zipIdx.mergeSort ranksBefore).map (·.2)

/-- The tour that a chromosome stands for. -/
def decode (e : Encoding) (n : Int) (x : List α) : Except Fault (List Int) :=
  match e with
  | full => do
    e.checkSize n x
    let visits ← Arc.walk (← size n) x
    return visits.map fun i => (i.val : Int)
  | randomKeys => do
    e.checkSize n x
    return (sortedPlaces x).map Int.ofNat
  | cities => x.mapM truncate

/-- A tour that an encoding accepts visits every city once. -/
def checkTour (n : Int) (tour : List Int) : Except Fault Unit :=
  if tour.length ≠ n then refuse .tourLength
  else if visitsAll n tour then .ok ()
  else refuse (.notPermutation n)

/-- The arcs of a closed tour: one where an arc is taken, and zero elsewhere. -/
def arcsOf (n : Nat) (tour : List Int) : List α :=
  let stops := tour.map (cityAt? n)
  (stops.zip (stops.drop 1 ++ stops.take 1)).foldl (fun x leg =>
    match leg with
    | (some i, some j) => if i = j then x else x.set (Arc.index i j) 1
    | _ => x) (List.replicate (n * (n - 1)) 0)

/-- The chromosome that has the first key at the first city of the tour, and so on. -/
def scatter (n : Nat) (tour : List Int) (keys : List α) : List α :=
  ((tour.map (cityAt? n)).zip keys).foldl (fun x stop =>
    match stop.1 with
    | some i => x.set i stop.2
    | none => x) (List.replicate n 0)

/-- Keys in equal steps from zero on. -/
def evenKeys (n : Nat) : List α := (List.range n).map fun (i : Nat) => ofInt i / ofInt n

/-- The chromosome of a tour. -/
def encode (e : Encoding) (n : Int) (tour : List Int) : Except Fault (List α) := do
  checkTour n tour
  return match e with
    | full => arcsOf n.toNat tour
    | randomKeys => scatter n.toNat tour (evenKeys n.toNat)
    | cities => tour.map ofInt

/-- The chromosome of a tour with keys of one's own, which are sorted first; a single key goes to
every city. -/
def encodeWithKeys (e : Encoding) (n : Int) (tour : List Int) (keys : List α) :
    Except Fault (List α) :=
  match e with
  | full | cities => .error .keysNotTaken
  | randomKeys => do
    checkTour n tour
    let sorted := keys.mergeSort sortsBefore
    match sorted with
    | [key] => return scatter n.toNat tour (List.replicate n.toNat key)
    | _ =>
      if sorted.length = n.toNat then return scatter n.toNat tour sorted
      else throw .keyCount

/-- The integers of a list of stops, if all of them are whole and count and values make a tour. -/
def wholeTour (n : Int) (stops : List Stop) : Except Fault (List Int) :=
  match stops.mapM Stop.whole? with
  | some tour => .ok tour
  | none => if stops.length ≠ n then refuse .tourLength else refuse (.notPermutation n)

/-- The chromosome of a list of stops; cities keep the numbers as they are given. -/
def encodeStops (e : Encoding) (n : Int) (stops : List Stop) : Except Fault (List Float) := do
  let tour ← wholeTour n stops
  let x ← e.encode n tour
  return match e with
    | full | randomKeys => x
    | cities => stops.map fun
      | .index i => ofInt i
      | .real v => v

/-- The chromosome of a list of stops with keys of one's own. -/
def encodeStopsWithKeys (e : Encoding) (n : Int) (stops : List Stop) (keys : List Float) :
    Except Fault (List Float) :=
  match e with
  | full | cities => .error .keysNotTaken
  | randomKeys => do e.encodeWithKeys n (← wholeTour n stops) keys

/-- Whether a list of numbers counts the integers up from zero. -/
def countsUp (x : List α) : Bool := x.zipIdx.all fun entry => isInteger entry.1 entry.2

/-- Whether a list of numbers holds each city once. -/
def isPermutation (n : Int) (x : List α) : Bool :=
  x.length == n && countsUp (x.mergeSort fun a b => decide (a ≤ b))

/-- Zero for a permutation of the cities and one for anything else. -/
def permutationEntry (n : Int) (x : List α) : List α := [if isPermutation n x then 0 else 1]

/-- The constraints on a chromosome, the inequalities last. -/
def constraints (e : Encoding) (n : Int) (x : List α) : Except Fault (List α) :=
  match e with
  | full => do
    e.checkSize n x
    Arc.constraints (← size n) x
  | randomKeys => .ok []
  | cities => .ok (permutationEntry n x)

/-- Whether the equations are within a tolerance of zero and the inequalities do not exceed it. -/
def withinTolerance (inequalities : Int) (tolerance : α) (entries : List α) : Bool :=
  let equations := (entries.length - inequalities).toNat
  (entries.take equations).all (fun c => decide (magnitude c ≤ tolerance)) &&
    (entries.drop equations).all fun c => decide (c ≤ tolerance)

end CityTour.Encoding
