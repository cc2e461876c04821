import Std.Data.TreeMap
import GraphMeasures.EngineError
import GraphMeasures.Quantity

/-!
# GraphMeasures — graphs as adjacency lists

A `Graph` has a fixed number of nodes and grows by `addEdge`. Loops and
parallel edges are allowed. Every edge is stored as **half-edges**:

* a directed edge `u → v` as a half-edge to `v` in the outgoing list of `u` and
  one to `u` in the incoming list of `v`;
* an undirected edge between two nodes as one half-edge in the list of either;
* an undirected loop as a single half-edge.

The two half-edges of an edge are each other's twins, and each records the
position of its twin in the other list; the half-edge of an undirected loop is
its own twin.

Edges get their ids from `Graph.indexEdges` (module `Graph.Numbering`). Adding
an edge takes the index away; ids that half-edges got earlier stay with them.
-/

namespace GraphMeasures

/-- One end of an edge, as it stands in the list of the other end. -/
structure HalfEdge (W : Type) where
  node : Nat
  weight : W
  /-- The position of the other half-edge in its list. -/
  twin : Nat
  id : Option Nat
deriving Repr, BEq, Inhabited

/-- An edge as it is listed: once, with its ends in a fixed order. -/
structure Edge (W : Type) where
  source : Nat
  target : Nat
  weight : W
  id : Option Nat
deriving Repr, BEq

/-- The ids of the edges by their ends. -/
structure EdgeIndex where
  /-- For every node the ids of the edges it stands for, by their far end. -/
  rows : Array (Std.TreeMap Nat Nat)
  /-- One more than the largest id. -/
  bound : Nat

/-- A graph whose edges carry weights from `W`. -/
structure Graph (W : Type) where
  directed : Bool
  weighted : Bool
  outgoing : Array (Array (HalfEdge W))
  /-- Used by directed graphs only. -/
  incoming : Array (Array (HalfEdge W))
  edgeCount : Nat
  index : Option EdgeIndex

namespace Graph

variable {W : Type}

def empty (nodeCount : Nat) (weighted directed : Bool) : Graph W where
  directed := directed
  weighted := weighted
  outgoing := Array.replicate nodeCount #[]
  incoming := if directed then Array.replicate nodeCount #[] else #[]
  edgeCount := 0
  index := none

instance : Inhabited (Graph W) := ⟨empty 0 false false⟩

def nodeCount (g : Graph W) : Nat :=
  g.outgoing.size

/-- The lists that hold the half-edges of a node's incoming edges. -/
def incomingLists (g : Graph W) : Array (Array (HalfEdge W)) :=
  if g.directed then g.incoming else g.outgoing

/-- The half-edges at a node: of its outgoing edges in a directed graph, of all
its edges in an undirected one. A node that does not exist has none. -/
def neighbours (g : Graph W) (node : Nat) : List (HalfEdge W) :=
  (g.outgoing.getD node #[]).toList

/-- The half-edges of a node's incoming edges; in an undirected graph the same
as its `neighbours`. -/
def inNeighbours (g : Graph W) (node : Nat) : List (HalfEdge W) :=
  (g.incomingLists.getD node #[]).toList

def degree (g : Graph W) (node : Nat) : Nat :=
  (g.outgoing.getD node #[]).size

/-- Whether the half-edge at a node stands for its edge when edges are listed:
always in a directed graph, at the larger end in an undirected one. -/
def standsFor (directed : Bool) (node : Nat) (half : HalfEdge W) : Bool :=
  directed || half.node ≤ node

/-- Every edge once, by its source and within one source in the order in which
the edges were added. The source of an undirected edge is its larger end. -/
def edges (g : Graph W) : List (Edge W) :=
  g.outgoing.toList.zipIdx.flatMap fun (row, source) =>
    (row.toList.filter (standsFor g.directed source)).map fun half =>
      ⟨source, half.node, half.weight, half.id⟩

/-- Whether the edges have been indexed since the last one was added. -/
def hasEdgeIds (g : Graph W) : Bool :=
  g.index.isSome

/-- One more than the largest edge id; zero without an index. -/
def edgeIdBound (g : Graph W) : Nat :=
  g.index.elim 0 (·.bound)

/-- Refuses nodes that do not exist. -/
def checkNode (g : Graph W) (node : Nat) : Except EngineError Unit :=
  if node < g.nodeCount then .ok () else .error (.invalidNodeId node g.nodeCount)

/-- Refuses graphs without an index. -/
def requireIndex (g : Graph W) : Except EngineError EdgeIndex :=
  match g.index with
  | some index => .ok index
  | none => .error .edgesNotIndexed

/-! ## Adding edges -/

/-- Puts a half-edge at the end of a node's list. -/
def pushHalf (lists : Array (Array (HalfEdge W))) (node far : Nat) (weight : W) (twin : Nat) :
    Array (Array (HalfEdge W)) :=
  lists.modify node (·.push ⟨far, weight, twin, none⟩)

/-- Adds an edge between two nodes of the graph. -/
def insertEdge (g : Graph W) (source target : Nat) (weight : W) : Graph W :=
  -- half-edges are put at the end, so the present sizes are the positions of the twins
  let position := g.degree source
  if g.directed then
    let twin := (g.incoming.getD target #[]).size
    { g with
      outgoing := pushHalf g.outgoing source target weight twin
      incoming := pushHalf g.incoming target source weight position
      edgeCount := g.edgeCount + 1
      index := none }
  else if source = target then
    -- a loop is its own twin
    { g with
      outgoing := pushHalf g.outgoing source target weight position
      edgeCount := g.edgeCount + 1
      index := none }
  else
    let twin := g.degree target
    { g with
      outgoing := pushHalf (pushHalf g.outgoing source target weight twin) target source weight position
      edgeCount := g.edgeCount + 1
      index := none }

/-- The weight that a new edge gets. Both ends must exist and the weight must be
finite; a graph without weights gives every edge the weight one, whatever is
asked for. -/
def admittedWeight (g : Graph Float) (source target : Nat) (weight : Float) :
    Except EngineError Float := do
  g.checkNode source
  g.checkNode target
  let weight := if g.weighted then weight else Scalar.one
  if weight.isFinite then return weight else throw (.nonFiniteWeight source target weight)

/-- Adds an edge if its ends and its weight are admitted. -/
def addEdge (g : Graph Float) (source target : Nat) (weight : Float) :
    Except EngineError (Graph Float) := do
  return g.insertEdge source target (← g.admittedWeight source target weight)

/-- The same graph with every weight replaced by its image. -/
def map {V : Type} (f : W → V) (g : Graph W) : Graph V where
  directed := g.directed
  weighted := g.weighted
  outgoing := g.outgoing.map (·.map fun half => { half with weight := f half.weight })
  incoming := g.incoming.map (·.map fun half => { half with weight := f half.weight })
  edgeCount := g.edgeCount
  index := g.index

/-! ## Sums of weights

Every sum runs in the order of the list that it is taken over. -/

section Weights

variable [Scalar W]

/-- The weight of the half-edges at a node. -/
def weightedDegree (g : Graph W) (node : Nat) : W :=
  Scalar.sum ((g.neighbours node).map (·.weight))

/-- The weight of a node's incoming edges. -/
def weightedInDegree (g : Graph W) (node : Nat) : W :=
  Scalar.sum ((g.inNeighbours node).map (·.weight))

/-- The weight of the half-edges at a node, with loops counted twice. -/
def volume (g : Graph W) (node : Nat) : W :=
  Scalar.sum ((g.neighbours node).map fun half =>
    if half.node = node then Scalar.ofCount 2 * half.weight else half.weight)

def totalEdgeWeight (g : Graph W) : W :=
  Scalar.sum (g.edges.map (·.weight))

end Weights

end Graph

end GraphMeasures
