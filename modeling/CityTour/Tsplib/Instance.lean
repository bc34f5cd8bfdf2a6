import CityTour.Graph.Basic
import CityTour.Tsplib.Section

/-! The graph of an instance file, made of what its sections say.  Every section is read, and one
that cannot be read spoils the file; of two sections with one keyword the later counts. -/

namespace CityTour.Tsplib

open Text

/-- The contents of an instance file. -/
structure Data where
  name : String
  dimension : Int
  weightType : String
  weightFormat : String
  edgeFormat : Option EdgeFormat
  /-- The coordinates of the nodes, one entry a node. -/
  coordinates : List (Int × List Quantity)
  /-- The places at which nodes are shown, one entry a node. -/
  display : List (Int × List Quantity)
  numbers : Array Quantity
  demands : List (Int × Int)
  edges : EdgeData

/-- A file that says nothing. -/
def Data.blank : Data := ⟨"", 0, "", "", none, [], [], #[], [], .neighbours []⟩

/-- A node and its coordinates, of which there is at least one. -/
def coordinateLine? (line : List Char) : Option (Int × List Quantity) :=
  match words line with
  | node :: value :: rest => do
    return (← Numeral.integer? node, ← (value :: rest).mapM Quantity.ofWord?)
  | _ => none

/-- The entries of all lines, one entry a node. -/
def entryLines? {β : Type} (line? : List Char → Option (Int × β)) (cs : List Char) :
    Option (List (Int × β)) :=
  ((lines cs).mapM line?).map Entries.settle

/-- What can be read, or else the fault of a section that cannot. -/
def readable {β : Type} : Option β → Except Fault β
  | some value => .ok value
  | none => .error .malformedSection

/-- The contents with one more section. -/
def Data.read (d : Data) (k : Keyword) (value : List Char) : Except Fault Data := do
  let text := String.ofList value
  match k with
  | .name => return { d with name := text }
  | .dimension => return { d with dimension := ← readable (Numeral.integer? value) }
  | .edgeWeightType => return { d with weightType := text }
  | .edgeWeightFormat => return { d with weightFormat := text }
  | .edgeDataFormat => return { d with edgeFormat := EdgeFormat.ofName? text }
  | .nodeCoords =>
    return { d with coordinates := ← readable (entryLines? coordinateLine? value) }
  | .displayData => return { d with display := ← readable (entryLines? coordinateLine? value) }
  | .edgeWeights =>
    return { d with numbers := (← readable ((words value).mapM Quantity.ofWord?)).toArray }
  | .demands => return { d with demands := ← readable (entryLines? pair? value) }
  | .edgeData => return { d with edges := ← EdgeData.ofText value }
  | .capacity => (readable (Numeral.integer? value)).map fun _ => d
  | .fixedEdges => (pairList value).map fun _ => d
  | .depots => (integerList value).map fun _ => d
  | .tours => if listsTours value then return d else throw .malformedSection
  | .comment | .type | .nodeCoordType | .displayDataType | .endOfFile => return d

/-- The contents of the text of an instance file. -/
def Data.ofText (cs : List Char) : Except Fault Data :=
  (sections cs).foldlM (fun d s => d.read s.1 s.2) Data.blank

/-! ### Nodes of instance files

The nodes are those with coordinates, or else those with a place to show them at, the ends of listed
edges, those with demands, or the numbers below the dimension. -/

/-- Integers in order, each of them once. -/
def sortedNodes (nodes : List Int) : List Int :=
  nodes.eraseDups.mergeSort fun a b => decide (a ≤ b)

/-- The nodes in order. -/
def Data.nodes (d : Data) : Except Fault (List Int) := do
  if !d.coordinates.isEmpty then return sortedNodes (d.coordinates.map (·.1))
  else if !d.display.isEmpty then return sortedNodes (d.display.map (·.1))
  else
    match d.edgeFormat with
    | some form => return sortedNodes ((← d.edges.toPairs form).flatMap fun e => [e.1, e.2])
    | none =>
      if !d.demands.isEmpty then return sortedNodes (d.demands.map (·.1))
      else return (List.range d.dimension.toNat).map Int.ofNat

/-! ### Edge weights of instance files

A weight is looked up in the listed numbers, whose order a layout gives, or measured between the
coordinates of two nodes by a metric. -/

open Quantity

/-- How the numbers of a matrix are listed: all of them row by row, or those of one half of a
symmetric matrix, with or without its diagonal. -/
inductive Layout
  | full
  | lower (diagonal : Bool)
  | upper (diagonal : Bool)
  deriving DecidableEq, Repr

namespace Layout

/-- The layout with a name.  A half listed by columns is the other half listed by rows. -/
def ofName? : String → Option Layout
  | "FULL_MATRIX" => some .full
  | "LOWER_DIAG_ROW" | "UPPER_DIAG_COL" => some (.lower true)
  | "UPPER_DIAG_ROW" | "LOWER_DIAG_COL" => some (.upper true)
  | "LOWER_ROW" | "UPPER_COL" => some (.lower false)
  | "UPPER_ROW" | "LOWER_COL" => some (.upper false)
  | _ => none

/-- Whether the diagonal is among the numbers. -/
def hasDiagonal : Layout → Bool
  | full => true
  | lower diagonal | upper diagonal => diagonal

/-- The row and the column of the number for two nodes.  Without a diagonal the longer side loses
its first place. -/
def cell (layout : Layout) (i j : Int) : Int × Int :=
  let gap : Int := if layout.hasDiagonal then 0 else 1
  match layout with
  | full => (i, j)
  | lower _ => (max i j - gap, min i j)
  | upper _ => (min i j, max i j - gap)

/-- The sum of the whole numbers up to `k`. -/
def triangular (k : Int) : Int := k * (k + 1) / 2

/-- The place of a cell among the numbers of a matrix with `n` rows. -/
def place (layout : Layout) (n i j : Int) : Int :=
  let rows := if layout.hasDiagonal then n else n - 1
  match layout with
  | full => i * n + j
  | lower _ => triangular i + j
  | upper _ => triangular rows - triangular (rows - i) + (j - i)

/-- The number for two nodes of a matrix with `n` rows. -/
def number (layout : Layout) (n : Int) (numbers : Array Quantity) (i j : Int) :
    Except Fault Quantity :=
  if i = j ∧ !layout.hasDiagonal then .ok (.whole 0)
  else
    let (row, column) := layout.cell i j
    if 0 ≤ row ∧ row < n ∧ 0 ≤ column ∧ column < n then
      match numbers[(layout.place n row column).toNat]? with
      | some w => .ok w
      | none => .error .outOfRange
    else .error .outOfRange

end Layout

/-- How the distance between two points is measured. -/
inductive Metric
  | euclidean
  /-- The Euclidean distance, rounded up. -/
  | ceiling
  | manhattan
  | maximum
  /-- The Euclidean distance in units of the root of ten, rounded up. -/
  | pseudoEuclidean
  deriving DecidableEq, Repr

/-- The metric with a name. -/
def Metric.ofName? : String → Option Metric
  | "EUC_2D" | "EUC_3D" => some .euclidean
  | "CEIL_2D" => some .ceiling
  | "MAN_2D" | "MAN_3D" => some .manhattan
  | "MAX_2D" | "MAX_3D" => some .maximum
  | "ATT" => some .pseudoEuclidean
  | _ => none

/-- The differences between two points of one dimension. -/
def deltas (a b : List Quantity) : Except Fault (List Quantity) :=
  if a.length = b.length then (a.zip b).mapM fun p => sub p.2 p.1
  else .error .unevenCoordinates

/-- The sum of the squares of some numbers. -/
def sumOfSquares (xs : List Quantity) : Except Fault Quantity := do
  sum (← xs.mapM fun x => mul x x)

/-- The distance between two points, from their differences. -/
def Metric.distance (metric : Metric) (deltas : List Quantity) : Except Fault Int := do
  match metric with
  | .euclidean => nearestInt (← sqrt (← sumOfSquares deltas))
  | .ceiling => Quantity.ceiling (← sqrt (← sumOfSquares deltas))
  | .manhattan => nearestInt (← (← sum (deltas.map abs)).toReal)
  | .maximum =>
    match deltas.map abs with
    | first :: rest => nearestInt (← (greatest first rest).toReal)
    | [] => throw .unevenCoordinates
  | .pseudoEuclidean =>
    let r := Float.sqrt (← tenth (← sumOfSquares deltas))
    let t ← nearestInt r
    return if exceeds (.real r) (.whole t) then t + 1 else t

/-- How an instance file gives its edge weights. -/
inductive Weighing
  /-- By listed numbers, rows being counted from the least node. -/
  | listed (layout : Layout) (least : Int)
  | measured (metric : Metric)
  /-- Every edge weighs one. -/
  | uniform

/-- How a file gives its edge weights. -/
def Data.weighing (d : Data) : Except Fault Weighing := do
  match d.weightType with
  | "EXPLICIT" =>
    match ← d.nodes, Layout.ofName? d.weightFormat with
    | [], _ => throw .noNodes
    | least :: _, some layout => return .listed layout least
    | _ :: _, none => throw .unknownWeights
  | "SPECIAL" => throw .specialWeights
  | kind =>
    if kind = "" ∧ d.weightFormat = "" then return .uniform
    else
      match Metric.ofName? kind with
      | some metric => return .measured metric
      | none => throw .unknownWeights

/-- The coordinates of a node. -/
def Data.coordinatesOf (d : Data) (node : Int) : Except Fault (List Quantity) :=
  match d.coordinates.lookup node with
  | some c => .ok c
  | none => .error .unknownWeights

/-- The weight of the edge between two nodes. -/
def Data.weight (d : Data) (weighing : Weighing) (i j : Int) : Except Fault Quantity := do
  match weighing with
  | .listed layout least => layout.number d.dimension d.numbers (i - least) (j - least)
  | .measured metric =>
    return .whole (← metric.distance (← deltas (← d.coordinatesOf i) (← d.coordinatesOf j)))
  | .uniform => return .whole 1

/-! ### Graphs of instance files

Every two nodes are joined, unless the file lists its edges. -/

open Document

/-- Whether the edges go one way only. -/
def Data.directed (d : Data) : Bool :=
  d.weightFormat == "FULL_MATRIX" || d.weightType == "SPECIAL"

/-- The pairs that are joined: the listed ones, or else all ordered pairs of nodes, each node with
itself included. -/
def Data.pairs (d : Data) (nodes : List Int) : Except Fault (List (Int × Int)) :=
  match d.edgeFormat with
  | some form => d.edges.toPairs form
  | none => .ok (nodes.flatMap fun i => nodes.map fun j => (i, j))

/-- The weight of a pair, which must be a pair of nodes. -/
def Data.joined (d : Data) (weighing : Weighing) (nodes : List Int) (p : Int × Int) :
    Except Fault ((Int × Int) × Quantity) := do
  let w ← d.weight weighing p.1 p.2
  if p.1 ∈ nodes ∧ p.2 ∈ nodes then return (p, w) else throw .unknownWeights

/-- The graph of the contents of a file, without edges from a node to itself. -/
def Data.toGraph (d : Data) : Except Fault (Graph Value) := do
  let weighing ← d.weighing
  let nodes ← d.nodes
  let edges ← (← d.pairs nodes).mapM (d.joined weighing nodes)
  return {
    directed := d.directed
    history := (nodes.map fun i => .node (.number i) none) ++
      (edges.filter fun e => e.1.1 ≠ e.1.2).map fun e =>
        .edge (.number e.1.1) (.number e.1.2) (some e.2.toValue) }

end CityTour.Tsplib
