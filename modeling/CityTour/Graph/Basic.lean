import CityTour.Entries
import CityTour.Graph.Label
import CityTour.Grid
import CityTour.Network

/-! Graphs with labelled nodes, and the networks that they stand for.  A graph is the sequence of
the nodes and edges put into it.  Putting a node or an edge in again changes its value or weight
only if one is given; the ends of an edge become nodes.  In an undirected graph an edge joins its
ends both ways.  `Graph.edges` lists every edge once, with its last weight. -/

namespace CityTour

/-- A node or an edge that is put into a graph, with what is attached to it. -/
inductive Insertion (β : Type)
  | node (label : Label) (value : Option β)
  | edge (tail head : Label) (weight : Option β)

/-- A graph as the sequence of its insertions. -/
structure Graph (β : Type) where
  directed : Bool
  history : List (Insertion β)

namespace Graph

variable {β : Type}

/-- The labels that an insertion mentions. -/
def mentions : Insertion β → List Label
  | .node l _ => [l]
  | .edge u v _ => [u, v]

/-- One more label, unless it was seen before. -/
def see (seen : List Label) (l : Label) : List Label := if l ∈ seen then seen else seen ++ [l]

/-- The labels of the nodes, in the order in which they are first mentioned. -/
def labels (g : Graph β) : List Label := (g.history.flatMap mentions).foldl see []

/-- For nodes at numbered places the places that each of them is joined to, in the order in which
they were first joined, with the weight of the edge if it has one. -/
abbrev Adjacency (β : Type) (n : Nat) := Vector (List (Fin n × Option β)) n

/-- One more edge from a place to another. -/
def putEdge {n : Nat} (rows : Adjacency β n) (i j : Fin n) (weight : Option β) : Adjacency β n :=
  rows.set i.val (Entries.alter (fun older => weight.or older.join) j (rows.get i)) i.isLt

/-- One more insertion. -/
def putInsertion (directed : Bool) (order : List Label) (rows : Adjacency β order.length) :
    Insertion β → Adjacency β order.length
  | .node _ _ => rows
  | .edge u v weight =>
    match order.finIdxOf? u, order.finIdxOf? v with
    | some i, some j =>
      let rows := putEdge rows i j weight
      if directed then rows else putEdge rows j i weight
    | _, _ => rows

/-- How the nodes in a given order are joined. -/
def adjacency (g : Graph β) (order : List Label) : Adjacency β order.length :=
  g.history.foldl (putInsertion g.directed order) (Vector.replicate _ [])

/-- The edges in the order of the nodes, and for each node in the order in which it was joined.  In
an undirected graph the end that comes first has the edge. -/
def edges (g : Graph β) : List (Label × Label × Option β) :=
  let rows := g.adjacency g.labels
  (List.finRange g.labels.length).flatMap fun i =>
    (rows[i].filter fun e => g.directed || decide (i ≤ e.1)).map fun e =>
      (g.labels[i], g.labels[e.1], e.2)

/-- The weights between the nodes in a given order, with what stands for a missing edge and for an
edge without a weight. -/
def weights (g : Graph β) (order : List Label) (missing unweighted : β) : Grid β :=
  let rows := g.adjacency order
  let entry : Option (Option β) → β
    | none => missing
    | some none => unweighted
    | some (some w) => w
  ⟨[order.length, order.length],
    (Vector.ofFn fun i : Fin order.length => Vector.ofFn fun j : Fin order.length =>
      entry (rows[i].lookup j)).flatten.cast (by simp [cells])⟩

/-- The values of the nodes in a given order after one more insertion. -/
def putValue (order : List Label) (found : Vector (Option β) order.length) :
    Insertion β → Vector (Option β) order.length
  | .edge _ _ _ | .node _ none => found
  | .node l (some value) =>
    match order.finIdxOf? l with
    | some i => found.set i.val (some value) i.isLt
    | none => found

/-- The values of the nodes in a given order, with what stands for a missing value. -/
def values (g : Graph β) (order : List Label) (missing : β) : List β :=
  let found := g.history.foldl (putValue order) (Vector.replicate _ none)
  found.toList.map fun value => value.getD missing

end Graph

/-! ### Graphs and networks

The cities of a graph are its nodes in the order of their labels; a missing edge weighs zero and is
refused with the zero weights, an edge without a weight weighs one, and a node without a value is
worth one.  `Network.toGraph` numbers the cities and joins every two of them. -/

open Document

variable {α : Type} [Scalar α]

/-- The network of a graph and a budget. -/
def Network.ofGraph (g : Graph α) (budget : α) : Except Fault (Sigma (Network α)) := do
  let order ← Label.sort g.labels
  ofGrids? (g.weights order 0 1) (Grid.ofList (g.values order 1)) budget

/-- The weight of an edge without a weight. -/
def plainWeight : Value := .int 1

/-- A graph with its weights as doubles.  They are converted together, as an array with one number
an edge; a lone edge may have its number in lists. -/
def Graph.toReal (g : Graph Value) : Except Fault (Graph Float) := do
  let edges := g.edges
  let weights ← Grid.ofValue (.list (edges.map fun e => e.2.2.getD plainWeight))
  if weights.shape = [edges.length] ∨ edges.length = 1 ∧ cells weights.shape = 1 then
    return {
      directed := g.directed
      history := g.labels.map (fun l => .node l none) ++
        edges.zipWith (fun e w => .edge e.1 e.2.1 (some w)) weights.entries.toList }
  else throw .unevenLists

/-- The network of a graph whose weights and values are document values.  Values given apart take
the place of those of the nodes. -/
def Network.ofGraphValues (g : Graph Value) (values : Option Value) (budget : Value) :
    Except Fault (Sigma (Network Float)) := do
  let order ← Label.sort g.labels
  let ⟨n, w⟩ ← Weights.ofGrid? ((← g.toReal).weights order 0 1)
  let given := values.getD (.list (g.values order (.int 1)))
  let v ← valuesOfGrid? n (← Grid.ofValue given)
  return ⟨n, ← ofParts? w v (← Double.ofValue budget)⟩

/-- The label of a city. -/
def Network.labelOf {n : Nat} (i : Fin n) : Label := .number i.val

/-- The edges of a network, row by row; a weight of zero is no edge. -/
def Network.edges {n : Nat} (N : Network α n) : List (Fin n × Fin n × α) :=
  (List.finRange n).flatMap fun i => (List.finRange n).filterMap fun j =>
    if N.weight i j == 0 then none else some (i, j, N.weight i j)

/-- The directed graph of a network. -/
def Network.toGraph {n : Nat} (N : Network α n) : Graph α where
  directed := true
  history := ((List.finRange n).map fun i => .node (labelOf i) (some (N.value i))) ++
    N.edges.map fun e => .edge (labelOf e.1) (labelOf e.2.1) (some e.2.2)

end CityTour
