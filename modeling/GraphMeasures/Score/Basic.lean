import GraphMeasures.Failure
import GraphMeasures.Graph.Numbering
import GraphMeasures.Random.Generator

/-!
# GraphMeasures — scores that take the edges one by one

* `triangles` — for every edge the number of nodes that are joined to both of its
  ends, in whatever direction. A loop lies on no triangle. An edge to a node that is
  not there makes it panic.
* `uniform` — for every edge a double from the unit interval, drawn in the order of
  the ids from stream 0 of the run.
-/

namespace GraphMeasures.Score

/-! ## Triangles -/

variable {W : Type}

/-- The other nodes that an edge joins to a node, in either direction: in ascending
order, each once. -/
def joinedNodes (g : Graph W) (node : Nat) : List Nat :=
  (((g.neighbours node ++ g.inNeighbours node).map (·.node)).filter (· ≠ node)).mergeSort.eraseReps

/-- The number of nodes that two ascending lists share. -/
def sharedCount : List Nat → List Nat → Nat
  | [], _ => 0
  | _, [] => 0
  | a :: as, b :: bs =>
    if a < b then sharedCount as (b :: bs)
    else if b < a then sharedCount (a :: as) bs
    else sharedCount as bs + 1
termination_by as bs => as.length + bs.length

/-- The number of triangles that the edge between two nodes lies on, given the
nodes joined to every node. -/
def trianglesOver (joined : Array (List Nat)) (source target : Nat) :
    Except (Failure EngineError) Nat := do
  if source = target then return 0
  return sharedCount (← Checked.get joined source) (← Checked.get joined target)

/-- Enters the number of triangles on an edge under its id. -/
def countEdge (joined : Array (List Nat)) (counts : Array Nat) (edge : Edge W) :
    Except (Failure EngineError) (Array Nat) :=
  match edge.id with
  | some id => do
    return counts.setIfInBounds id (← trianglesOver joined edge.source edge.target)
  | none => .ok counts

/-- For every edge id the number of triangles that its edge lies on. -/
def triangleCounts (g : Graph W) : Except (Failure EngineError) (Array Nat) := do
  let index ← g.requireIndex.mapError .error
  let joined := (Array.range g.nodeCount).map (joinedNodes g)
  g.edges.foldlM (countEdge joined) (Array.replicate index.bound 0)

def triangles (g : Graph W) : Except (Failure EngineError) (Array Float) := do
  return (← triangleCounts g).map Float.ofNat

/-! ## Random scores -/

/-- So many doubles from a generator. -/
def drawUnits (count : Nat) (g : Random.Generator) : Array Float :=
  ((List.range count).foldl (fun (drawn, g) _ => (drawn.push g.unit.1, g.unit.2)) (#[], g)).1

/-- For every edge id a double from the unit interval. -/
def uniform (g : Graph W) (seed : UInt64) : Except EngineError (Array Float) := do
  let index ← g.requireIndex
  return drawUnits index.bound (.ofStream seed 0)

end GraphMeasures.Score
