import CityTour.Entries
import CityTour.Fault
import CityTour.Graph.Label
import CityTour.Grid
import CityTour.Number.Written
import CityTour.Text

/-! The text of an instance file: its sections, and the lists and numbers that stand in them.  A
section starts where a keyword is followed by a colon or by the end of its line, anywhere in the
text, and runs to the start of the next one.  What stands before the first section belongs to none.
-/

namespace CityTour.Tsplib

open Text

/-- The keywords that start a section. -/
inductive Keyword
  | name
  | comment
  | type
  | dimension
  | capacity
  | nodeCoordType
  | edgeWeightType
  | displayDataType
  | edgeWeightFormat
  | edgeDataFormat
  | nodeCoords
  | edgeData
  | edgeWeights
  | displayData
  | fixedEdges
  | depots
  | demands
  | tours
  | endOfFile
  deriving DecidableEq, Repr

namespace Keyword

/-- The spelling of a keyword. -/
def spelling : Keyword → String
  | name => "NAME"
  | comment => "COMMENT"
  | type => "TYPE"
  | dimension => "DIMENSION"
  | capacity => "CAPACITY"
  | nodeCoordType => "NODE_COORD_TYPE"
  | edgeWeightType => "EDGE_WEIGHT_TYPE"
  | displayDataType => "DISPLAY_DATA_TYPE"
  | edgeWeightFormat => "EDGE_WEIGHT_FORMAT"
  | edgeDataFormat => "EDGE_DATA_FORMAT"
  | nodeCoords => "NODE_COORD_SECTION"
  | edgeData => "EDGE_DATA_SECTION"
  | edgeWeights => "EDGE_WEIGHT_SECTION"
  | displayData => "DISPLAY_DATA_SECTION"
  | fixedEdges => "FIXED_EDGES_SECTION"
  | depots => "DEPOT_SECTION"
  | demands => "DEMAND_SECTION"
  | tours => "TOUR_SECTION"
  | endOfFile => "EOF"

/-- All keywords, in the order in which they are tried. -/
def all : List Keyword :=
  [name, comment, type, dimension, capacity, nodeCoordType, edgeWeightType, displayDataType,
    edgeWeightFormat, edgeDataFormat, nodeCoords, edgeData, edgeWeights, displayData, fixedEdges,
    depots, demands, tours, endOfFile]

end Keyword

/-- The length of what separates a keyword from its value: a colon among blanks, or blanks up to the
end of a line. -/
def separatorLength? (cs : List Char) : Option Nat :=
  let blanks := cs.takeWhile isBlank
  match cs.dropWhile isBlank with
  | ':' :: rest => some (blanks.length + 1 + (rest.takeWhile isBlank).length)
  | _ =>
    if '\n' ∈ blanks then
      some (blanks.length - (blanks.reverse.takeWhile (· ≠ '\n')).length)
    else none

/-- The keyword at the start of a text, with the length of keyword and separator. -/
def keywordAt? (cs : List Char) : Option (Keyword × Nat) :=
  Keyword.all.findSome? fun k =>
    let word := k.spelling.toList
    if word.isPrefixOf cs then
      (separatorLength? (cs.drop word.length)).map fun n => (k, word.length + n)
    else none

/-- A section that ends here, if one is under way; its text is gathered in reverse. -/
def closeSection (current : Option Keyword) (gathered : List Char) :
    List (Keyword × List Char) :=
  match current with
  | some k => [(k, strip isBlank gathered.reverse)]
  | none => []

/-- The sections of the rest of a text. -/
def sectionsFrom (current : Option Keyword) (gathered : List Char) :
    List Char → List (Keyword × List Char)
  | [] => closeSection current gathered
  | c :: cs =>
    match keywordAt? (c :: cs) with
    | some (k, n) => closeSection current gathered ++ sectionsFrom (some k) [] (cs.drop (n - 1))
    | none => sectionsFrom current (c :: gathered) cs
termination_by cs => cs.length
decreasing_by all_goals simp; try omega

/-- The sections of a text in order, each with its value between blanks. -/
def sections (cs : List Char) : List (Keyword × List Char) := sectionsFrom none [] cs

/-! ### Lists of integers in instance files

A list is closed by the mark `-1`, the last characters of its text, and its items are words or
lines; lines without a character are left out.  Tours, which have marks between them, are only
checked. -/

/-- The mark that closes a list. -/
def mark : List Char := ['-', '1']

/-- The lines that have a character. -/
def lines (cs : List Char) : List (List Char) :=
  (cs.splitOnP (· = '\n')).filter fun line => !line.isEmpty

/-- The integers that all words of a text stand for. -/
def integers? (cs : List Char) : Option (List Int) := (words cs).mapM Numeral.integer?

/-- The text before the mark at its end, between blanks. -/
def beforeMark? (cs : List Char) : Option (List Char) :=
  let text := strip isBlank cs
  if mark.isSuffixOf text then some (strip isBlank (text.take (text.length - mark.length)))
  else none

/-- The items of a list before its mark, which is no item itself. -/
def markedItems (split : List Char → List (List Char)) (cs : List Char) :
    Except Fault (List (List Char)) :=
  match beforeMark? cs with
  | none => .error .malformedSection
  | some text =>
    match (split text).dropWhile (· ≠ mark) with
    | [] => .ok (split text)
    | [_] => .error .doubledMark
    | _ :: _ :: _ => .error .malformedSection

/-- The integers of a list, one a word. -/
def integerList (cs : List Char) : Except Fault (List Int) := do
  match (← markedItems words cs).mapM Numeral.integer? with
  | some entries => return entries
  | none => throw .malformedSection

/-- The two integers of a line. -/
def pair? (line : List Char) : Option (Int × Int) :=
  match integers? line with
  | some [i, j] => some (i, j)
  | _ => none

/-- The pairs of a list, one a line. -/
def pairList (cs : List Char) : Except Fault (List (Int × Int)) := do
  match (← markedItems lines cs).mapM pair? with
  | some entries => return entries
  | none => throw .malformedSection

/-- Whether a character may stand in a numeral behind its sign. -/
def continuesNumeral (c : Char) : Bool := isDigit c || c == '_'

/-- A text with a blank for every mark that stands behind a blank or a numeral and that no numeral
goes on from; `before` is the character in front of the text. -/
def blankMarks (before : Char) : List Char → List Char
  | [] => []
  | '-' :: '1' :: rest =>
    if (isBlank before || continuesNumeral before) && !rest.head?.any continuesNumeral then
      ' ' :: blankMarks '1' rest
    else '-' :: '1' :: blankMarks '1' rest
  | c :: rest => c :: blankMarks c rest

/-- Whether a text lists tours: integers with marks between them and a mark at the end.  The front
of the text counts as a dash, so a mark in front is a number, unless it is all there is. -/
def listsTours (cs : List Char) : Bool :=
  let text := strip isBlank cs
  let blanked := blankMarks '-' text
  text == mark || (blanked.getLast? == some ' ' && (integers? blanked).isSome)

/-! ### Numbers of instance files

A number written without point and exponent is whole and is computed with exactly; arithmetic with a
double turns the other number into a double. -/

open Document

/-- A number of an instance file. -/
inductive Quantity
  | whole (i : Int)
  | real (x : Float)

namespace Quantity

/-- The number that a word stands for. -/
def ofWord? (word : List Char) : Option Quantity :=
  match Numeral.integer? word with
  | some i => some (.whole i)
  | none => (Numeral.real? word).map .real

/-- The number as a value of a document. -/
def toValue : Quantity → Value
  | .whole i => .int i
  | .real x => .real x

/-- The double nearest to a number. -/
def toReal : Quantity → Except Fault Float
  | .whole i => Double.ofInt? i
  | .real x => .ok x

/-- An operation that is exact on whole numbers. -/
def combine (exact : Int → Int → Int) (rounded : Float → Float → Float) (a b : Quantity) :
    Except Fault Quantity :=
  match a, b with
  | .whole i, .whole j => .ok (.whole (exact i j))
  | a, b => do return .real (rounded (← a.toReal) (← b.toReal))

/-- The difference of two numbers. -/
def sub : Quantity → Quantity → Except Fault Quantity := combine (· - ·) (· - ·)

/-- The sum of two numbers. -/
def add : Quantity → Quantity → Except Fault Quantity := combine (· + ·) (· + ·)

/-- The product of two numbers. -/
def mul : Quantity → Quantity → Except Fault Quantity := combine (· * ·) (· * ·)

/-- The absolute value of a number. -/
def abs : Quantity → Quantity
  | .whole i => .whole i.natAbs
  | .real x => .real x.abs

/-- The sum of some numbers from left to right. -/
def sum (xs : List Quantity) : Except Fault Quantity := xs.foldlM add (.whole 0)

/-- The exact value of a number, as a label that can be compared. -/
def position? (a : Quantity) : Option Label :=
  match Label.ofValue a.toValue with
  | .ok l => some l
  | .error _ => none

/-- Whether a number is greater than another, by their exact values. -/
def exceeds (a b : Quantity) : Bool :=
  match a.position?, b.position? with
  | some p, some q => !p.before q
  | _, _ => false

/-- The greatest of some numbers, the first of equal ones. -/
def greatest (first : Quantity) (rest : List Quantity) : Quantity :=
  rest.foldl (fun best x => if x.exceeds best then x else best) first

/-- The square root of a number. -/
def sqrt (a : Quantity) : Except Fault Float := return Float.sqrt (← a.toReal)

/-- A tenth of a number. -/
def tenth : Quantity → Except Fault Float
  | .whole i => Double.bounded (Double.ofQuotient i 10)
  | .real x => .ok (x / 10)

/-- The nearest integer, a half going up. -/
def nearestInt (x : Float) : Except Fault Int := Double.truncate (x + 0.5)

/-- The least integer that is not below a double. -/
def ceiling (x : Float) : Except Fault Int := do
  let i ← Double.truncate x
  return if (Quantity.real x).exceeds (.whole i) then i + 1 else i

end Quantity

/-! ### Listed edges of instance files

Edges come in two forms, as pairs of nodes or as the neighbours of each node.  Neighbours are tried
first, and a file also says which form it is to be read in. -/

/-- The pieces of a text between marks. -/
def splitAtMarks : List Char → List (List Char)
  | [] => [[]]
  | '-' :: '1' :: rest => [] :: splitAtMarks rest
  | c :: rest =>
    match splitAtMarks rest with
    | [] => [[c]]
    | piece :: pieces => (c :: piece) :: pieces

/-- A node and its neighbours, of which there is at least one. -/
def neighbours? (piece : List Char) : Option (Int × List Int) :=
  match integers? piece with
  | some (node :: first :: rest) => some (node, first :: rest)
  | _ => none

/-- The neighbours of the nodes, each node closed by a mark. -/
def neighbourList? (cs : List Char) : Option (List (Int × List Int)) := do
  let pieces := splitAtMarks (← beforeMark? cs)
  return Entries.settle (← (pieces.filter fun piece => !piece.isEmpty).mapM neighbours?)

/-- The edges that a file lists. -/
inductive EdgeData
  | neighbours (entries : List (Int × List Int))
  | pairs (edges : List (Int × Int))

/-- Edges in either form. -/
def EdgeData.ofText (cs : List Char) : Except Fault EdgeData :=
  match neighbourList? cs, pairList cs with
  | some entries, _ => .ok (.neighbours entries)
  | none, .ok edges => .ok (.pairs edges)
  | none, .error _ => .error .malformedSection

/-- The forms in which a file may say that it lists its edges. -/
inductive EdgeFormat
  | edgeList
  | adjacencyList
  deriving DecidableEq, Repr

/-- The form with a name. -/
def EdgeFormat.ofName? : String → Option EdgeFormat
  | "EDGE_LIST" => some .edgeList
  | "ADJ_LIST" => some .adjacencyList
  | _ => none

/-- The listed edges, which must be in the form that the file says. -/
def EdgeData.toPairs : EdgeData → EdgeFormat → Except Fault (List (Int × Int))
  | pairs edges, .edgeList => .ok edges
  | pairs _, .adjacencyList => .error .pairedEdges
  | neighbours [], _ => .ok []
  | neighbours (_ :: _), .edgeList => .error .unpairedEdges
  | neighbours entries, .adjacencyList => .ok (entries.flatMap fun e => e.2.map fun j => (e.1, j))

end CityTour.Tsplib
