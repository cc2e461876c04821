import GraphMeasures.Graph.Basic

/-!
# GraphMeasures — the ids of edges

`Graph.indexEdges` numbers the edges from zero in the order of `Graph.edges`:
it goes through the nodes and gives the next number to every half-edge that
stands for its edge. The other half-edge of an edge takes the number of its
twin. The index looks ids up by the ends of an edge; of parallel edges it knows
the one with the least id.
-/

namespace GraphMeasures.Graph

variable {W : Type}

/-- Numbers the half-edges of one list that stand for their edges, from `next`
on: the new list and the first number that was not given. -/
def numberRow (directed : Bool) (node : Nat) (next : Nat) (row : Array (HalfEdge W)) :
    Array (HalfEdge W) × Nat :=
  row.foldl
    (fun (done, next) half =>
      if standsFor directed node half then (done.push { half with id := some next }, next + 1)
      else (done.push half, next))
    (#[], next)

/-- Numbers the half-edges of all lists that stand for their edges. -/
def numberRows (directed : Bool) (rows : Array (Array (HalfEdge W))) :
    Array (Array (HalfEdge W)) × Nat :=
  rows.foldl
    (fun (done, next) row =>
      let (row, next) := numberRow directed done.size next row
      (done.push row, next))
    (#[], 0)

/-- The id of a half-edge's twin, which stands in one of `rows`. -/
def twinId (rows : Array (Array (HalfEdge W))) (half : HalfEdge W) : Option Nat :=
  (rows.getD half.node #[])[half.twin]?.bind (·.id)

/-- The index entries of one node: of parallel edges the first is kept. -/
def indexRow (directed : Bool) (node : Nat) (row : Array (HalfEdge W)) : Std.TreeMap Nat Nat :=
  row.foldl
    (fun entries half =>
      match half.id with
      | some id => if standsFor directed node half then entries.insertIfNew half.node id else entries
      | none => entries)
    ∅

/-- Gives the half-edges of one list that do not stand for their edges the ids
of their twins. -/
def followTwins (directed : Bool) (rows : Array (Array (HalfEdge W))) (node : Nat)
    (row : Array (HalfEdge W)) : Array (HalfEdge W) :=
  row.map fun half =>
    if standsFor directed node half then half else { half with id := twinId rows half }

/-- Numbers all edges and builds their index. -/
def indexEdges (g : Graph W) : Graph W :=
  let numbered := numberRows g.directed g.outgoing
  -- twins are looked up among the half-edges that have just been numbered
  { g with
    outgoing := numbered.1.mapIdx (followTwins g.directed numbered.1)
    incoming := g.incoming.map (·.map fun half => { half with id := twinId numbered.1 half })
    index := some ⟨numbered.1.mapIdx (indexRow g.directed), numbered.2⟩ }

/-- The id of an edge from one node to another, in either direction when the
graph is undirected: the least one if there are several. -/
def edgeId (g : Graph W) (source target : Nat) : Except EngineError Nat := do
  let index ← g.requireIndex
  g.checkNode source
  g.checkNode target
  let (node, far) := if g.directed || target ≤ source then (source, target) else (target, source)
  match (index.rows.getD node ∅)[far]? with
  | some id => return id
  | none => throw (.missingEdge source target)

end GraphMeasures.Graph
