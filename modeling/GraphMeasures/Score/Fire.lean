import GraphMeasures.Failure
import GraphMeasures.Graph.Basic
import GraphMeasures.Random.Generator

/-!
# GraphMeasures — one forest fire

A fire starts at a random node and goes along edges. A node that it has reached
passes it on to a random number of its neighbours, the nodes in the order in
which they were reached. `Fire.order` lists these nodes and `Fire.burnt` the
edges the fire went along, so the edge with position `j` leads to the node with
position `j + 1`.

Where the random choices come from is left open (`Draws`): what holds of every
fire holds whatever is drawn. A fire panics on a graph without nodes, and when an
edge leads it to a node that is not there.
-/

namespace GraphMeasures.Score

/-- A source of the choices that a fire depends on, with state `ρ`. -/
structure Draws (ρ : Type) where
  /-- To how many neighbours a node passes the fire on. -/
  budget : ρ → Nat × ρ
  /-- An index below a bound. -/
  below : (bound : Nat) → 0 < bound → ρ → Fin bound × ρ

/-- The choices of a fire that spreads with probability `spread`. -/
def Draws.random (spread : Float) : Draws Random.Generator where
  budget := Random.Generator.geometric spread
  below := Random.Generator.below

/-- A fire while it burns. -/
structure Fire where
  order : Array Nat
  /-- For every node of the graph whether it was reached. -/
  visited : Array Bool
  /-- The ids of the edges gone along, in order. -/
  burnt : Array Nat

namespace Fire

variable {W ρ : Type}

/-- A fire at its first node. -/
def start {nodeCount : Nat} (first : Fin nodeCount) : Fire :=
  ⟨#[first], (Array.replicate nodeCount false).setIfInBounds first true, #[]⟩

def hasReached (fire : Fire) (node : Nat) : Except (Failure EngineError) Bool :=
  Checked.get fire.visited node

/-- The fire goes along an edge to a node. -/
def reach (fire : Fire) (node id : Nat) : Except (Failure EngineError) Fire := do
  return ⟨fire.order.push node, ← Checked.modify fire.visited node fun _ => true, fire.burnt.push id⟩

/-- The ways on along half-edges: the neighbours not yet reached and the ids of
the edges to them. Parallel edges offer a neighbour more than once. -/
def ways (fire : Fire) : List (HalfEdge W) → Except (Failure EngineError) (List (Nat × Nat))
  | [] => .ok []
  | half :: rest => do
    let reached ← fire.hasReached half.node
    let others ← fire.ways rest
    return if reached then others else (half.id.map (half.node, ·)).toList ++ others

/-- Takes an element out; the last one moves into its place. -/
def takeOut {α : Type} (xs : Array α) (i : Fin xs.size) : Array α :=
  (xs.swap i (xs.size - 1) i.isLt (by have := i.isLt; omega)).pop

/-- One element less is left. With this a node comes to the end of the ways it
can pass the fire on. -/
theorem size_takeOut {α : Type} (xs : Array α) (i : Fin xs.size) :
    (takeOut xs i).size = xs.size - 1 := by
  simp [takeOut]

/-- Passes the fire on along randomly chosen ways, until the budget is spent or
no way is left. A way to a node that was reached meanwhile costs nothing. -/
def spread (draws : Draws ρ) (budget : Nat) (ways : Array (Nat × Nat)) (fire : Fire) (state : ρ) :
    Except (Failure EngineError) (Fire × ρ) :=
  if h : 0 < budget ∧ 0 < ways.size then do
    let (i, state) := draws.below ways.size h.2 state
    let (node, id) := ways[i]
    -- parallel edges offer a node that the first of them has led to
    if ← fire.hasReached node then spread draws budget (takeOut ways i) fire state
    else spread draws (budget - 1) (takeOut ways i) (← fire.reach node id) state
  else .ok (fire, state)
termination_by ways.size
decreasing_by all_goals rw [size_takeOut]; omega

/-- Lets the nodes from a position on pass the fire on, at most `fuel` of
them. -/
def burnFrom (draws : Draws ρ) (g : Graph W) :
    (fuel position : Nat) → Fire → ρ → Except (Failure EngineError) (Fire × ρ)
  | 0, _, fire, state => .ok (fire, state)
  | fuel + 1, position, fire, state =>
    match fire.order[position]? with
    | none => .ok (fire, state)
    | some node => do
      let (budget, state) := draws.budget state
      let ways ← fire.ways (g.neighbours node)
      let (fire, state) ← spread draws budget ways.toArray fire state
      burnFrom draws g fuel (position + 1) fire state

/-- A whole fire. It reaches no node twice, so there are no more positions than
nodes. Without nodes there is none to start at. -/
def burn (draws : Draws ρ) (g : Graph W) (state : ρ) : Except (Failure EngineError) (Fire × ρ) :=
  if pos : 0 < g.nodeCount then
    let (first, state) := draws.below g.nodeCount pos state
    burnFrom draws g g.nodeCount 0 (start first) state
  else .error .emptyRange

end Fire

end GraphMeasures.Score
