import GraphMeasures.Entity
import GraphMeasures.Graph.Numbering
import GraphMeasures.Partition

/-!
# GraphMeasures — from entities to graphs and partitions

`toGraph` makes a graph with a node for every vertex and an edge for every row
of a bundle, and indexes it. `toPartition` makes a partition from a
segmentation: a row `(v, s)` puts vertex `v` into segment `s`, and the vertices
without a segment get subsets of their own behind the segments. Both refuse
the first row that is at fault.
-/

namespace GraphMeasures

/-- Why entities do not describe a graph or a partition. -/
inductive ConversionError where
  | endpointOutOfRange (edge vertex vertexCount : Nat)
  | weightLengthMismatch (weights edges : Nat)
  | undefinedWeight (edge : Nat)
  | nonFiniteWeight (edge : Nat) (weight : Float)
  | segmentOutOfRange (edge segment segmentCount : Nat)
  | overlappingSegments (vertex first second : Nat)
  | engine (e : EngineError)
deriving Repr, BEq, Inhabited

namespace ConversionError

def message : ConversionError → String
  | endpointOutOfRange edge vertex vertexCount =>
    s!"edge {edge} references vertex {vertex}, but the vertex set has {vertexCount}"
  | weightLengthMismatch weights edges =>
    s!"weight attribute has {weights} entries for {edges} edges"
  | undefinedWeight edge => s!"edge {edge} has no defined weight"
  | nonFiniteWeight edge weight =>
    s!"edge {edge} has non-finite weight " ++ Decimal.plain weight
  | segmentOutOfRange edge segment segmentCount =>
    s!"membership {edge} references segment {segment}, but there are {segmentCount}"
  | overlappingSegments vertex first second =>
    s!"vertex {vertex} belongs to segments {first} and {second}"
  | engine e => "engine rejected converted input: " ++ e.message

end ConversionError

instance : ToString ConversionError := ⟨ConversionError.message⟩

namespace Conversion

/-- Refuses a vertex that is not in its set. -/
def checkVertex (vertices : VertexSet) (edge vertex : Nat) : Except ConversionError Unit :=
  if vertex < vertices.size then .ok ()
  else .error (.endpointOutOfRange edge vertex vertices.size)

/-! ## Graphs -/

/-- The weight of a row: one without an attribute, else its defined and finite
value. -/
def rowWeight (weights : Option Attribute) (edge : Nat) : Except ConversionError Float :=
  match weights with
  | none => .ok Scalar.one
  | some weights =>
    match weights.get? edge with
    | none => .error (.undefinedWeight edge)
    | some weight => if weight.isFinite then .ok weight else .error (.nonFiniteWeight edge weight)

/-- Adds the row with some position to the graph. -/
def addRow (vertices : VertexSet) (weights : Option Attribute) (g : Graph Float) (edge : Nat)
    (row : Nat × Nat) : Except ConversionError (Graph Float) := do
  checkVertex vertices edge row.1
  checkVertex vertices edge row.2
  let weight ← rowWeight weights edge
  (g.addEdge row.1 row.2 weight).mapError .engine

/-- Adds rows to the graph, the first of which has position `edge`. -/
def addRows (vertices : VertexSet) (weights : Option Attribute) (g : Graph Float) (edge : Nat) :
    List (Nat × Nat) → Except ConversionError (Graph Float)
  | [] => .ok g
  | row :: rows => do
    let g ← addRow vertices weights g edge row
    addRows vertices weights g (edge + 1) rows

/-- The indexed graph that a bundle describes. -/
def toGraph (vertices : VertexSet) (edges : EdgeBundle) (weights : Option Attribute)
    (directed : Bool) : Except ConversionError (Graph Float) := do
  if let some weights := weights then
    if weights.size ≠ edges.size then throw (.weightLengthMismatch weights.size edges.size)
  let g ← addRows vertices weights (.empty vertices.size weights.isSome directed) 0 edges.rows.toList
  return g.indexEdges

/-! ## Partitions -/

/-- Takes in the membership with some position. A vertex may be put into its
segment again, but not into another one. -/
def addMembership (vertices segments : VertexSet) (p : Partition) (edge : Nat)
    (row : Nat × Nat) : Except ConversionError Partition := do
  let (vertex, segment) := row
  checkVertex vertices edge vertex
  unless segment < segments.size do throw (.segmentOutOfRange edge segment segments.size)
  -- a membership may be given twice
  match p.subsetOf vertex with
  | some first =>
    if first = segment then return p else throw (.overlappingSegments vertex first segment)
  | none => (p.assign vertex segment).mapError .engine

/-- Takes in memberships, the first of which has position `edge`. -/
def addMemberships (vertices segments : VertexSet) (p : Partition) (edge : Nat) :
    List (Nat × Nat) → Except ConversionError Partition
  | [] => .ok p
  | row :: rows => do
    let p ← addMembership vertices segments p edge row
    addMemberships vertices segments p (edge + 1) rows

/-- Gives a vertex without a segment the next subset of its own. -/
def isolate (state : Partition × Nat) (vertex : Nat) : Except ConversionError (Partition × Nat) :=
  let (p, next) := state
  match p.subsetOf vertex with
  | some _ => .ok (p, next)
  | none => do return (← (p.assign vertex next).mapError .engine, Index.wrapNext next)

/-- The partition that a segmentation describes, and the number of the first
subset behind those given to single vertices. These numbers start again at
zero behind the largest index. -/
def placeVertices (vertices segments : VertexSet) (belongsTo : EdgeBundle) :
    Except ConversionError (Partition × Nat) := do
  let p ← addMemberships vertices segments (.unassigned vertices.size) 0 belongsTo.rows.toList
  (List.range vertices.size).foldlM isolate (p, segments.size)

/-- The partition that a segmentation describes. -/
def toPartition (vertices segments : VertexSet) (belongsTo : EdgeBundle) :
    Except ConversionError Partition := do
  return (← placeVertices vertices segments belongsTo).1

end Conversion

end GraphMeasures
