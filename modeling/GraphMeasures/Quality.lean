import GraphMeasures.Failure
import GraphMeasures.Graph.Basic
import GraphMeasures.Partition

/-!
# GraphMeasures — how good a partition is

A measure gives one number to a partition of the nodes of a graph. All measures
want every node to have a subset.

* `coverage` — the share of the weight on edges inside subsets.
* `edgeCut` — the weight on edges between subsets.
* `hubDominance` — the mean, over the subsets, of the largest number of edges
  that one node has inside its subset, divided by the largest number possible
  without parallel edges.
* `modularity` — coverage less the coverage to be expected by chance.
-/

namespace GraphMeasures.Quality

variable {W : Type} [Scalar W]

/-- The weight inside subsets and the weight of all edges. -/
def insideAndTotal (p : Partition) (g : Graph W) : W × W :=
  g.edges.foldl
    (fun (inside, total) edge =>
      (if p.subsetOf edge.source = p.subsetOf edge.target then inside + edge.weight else inside,
       total + edge.weight))
    (Scalar.zero, Scalar.zero)

/-- What the measures that divide by the total weight say when it is zero. -/
def noWeight (measure : String) : EngineError :=
  .undefinedQuality measure "the graph has no edge weight"

/-- The share of the weight that stays inside subsets. -/
def coverage (p : Partition) (g : Graph W) : Except EngineError W := do
  p.ensureTotal g.nodeCount
  let (inside, total) := insideAndTotal p g
  if Scalar.isZero total then throw (noWeight "Coverage")
  return inside / total

/-- The weight that crosses between subsets. -/
def edgeCut (p : Partition) (g : Graph W) : Except EngineError W := do
  p.ensureTotal g.nodeCount
  let (inside, total) := insideAndTotal p g
  return total - inside

/-! ## Hub dominance -/

/-- The number of edges from a node to other nodes of its subset. -/
def internalDegree (p : Partition) (g : Graph W) (node subset : Nat) : Nat :=
  (g.neighbours node).countP fun half =>
    half.node ≠ node && p.subsetOf half.node = some subset

/-- For each subset the largest internal degree of its nodes. -/
def maxInternalDegrees (p : Partition) (g : Graph W) : Array Nat :=
  (List.range g.nodeCount).foldl
    (fun best node =>
      match p.subsetOf node with
      | some subset => best.modify subset (max · (internalDegree p g node subset))
      | none => best)
    (Array.replicate p.upperBound 0)

/-- How far a subset of some size is dominated by its hub; a single node
dominates itself. -/
def dominance (size best : Nat) : W :=
  if size = 1 then Scalar.one else Scalar.ofCount best / Scalar.ofCount (size - 1)

/-- The mean dominance of the subsets that have a node. -/
def hubDominance (p : Partition) (g : Graph W) : Except EngineError W := do
  p.ensureTotal g.nodeCount
  let subsets := (p.subsetSizes.toList.zip (maxInternalDegrees p g).toList).filter (·.1 ≠ 0)
  if subsets.isEmpty then
    throw (.undefinedQuality "HubDominance" "the partition has no subsets")
  let sum : W := subsets.foldl (fun sum (size, best) => sum + dominance size best) Scalar.zero
  return sum / Scalar.ofCount subsets.length

/-! ## Modularity -/

/-- Adds the quantity of a node to the sum of its subset. -/
def addToSubset (p : Partition) (quantity : Nat → W) (sums : Array W) (node : Nat) :
    Except (Failure EngineError) (Array W) :=
  match p.subsetOf node with
  | some subset => Checked.modify sums subset (· + quantity node)
  | none => .ok sums

/-- For each subset the sum of a quantity over its nodes. Memory is taken to have
room for all subsets below `upperBound`. A subset that is not below it has the
largest index; then that index is the bound as well, and no array is so long. -/
def subsetSums (p : Partition) (nodeCount : Nat) (quantity : Nat → W) :
    Except (Failure EngineError) (Array W) :=
  if (List.range nodeCount).all fun node => (p.subsetOf node).all (· < p.upperBound) then
    (List.range nodeCount).foldlM (addToSubset p quantity)
      (Array.replicate p.upperBound Scalar.zero)
  else .error .tooLong

/-- The coverage to be expected by chance: the probability that the two ends of
an edge, drawn independently by their weight, fall into one subset. -/
def expectedCoverage (p : Partition) (g : Graph W) (total : W) :
    Except (Failure EngineError) W := do
  if g.directed then
    let out ← subsetSums p g.nodeCount g.weightedDegree
    let into ← subsetSums p g.nodeCount g.weightedInDegree
    return Scalar.sum (List.zipWith (· * ·) out.toList into.toList) / (total * total)
  else
    let volumes ← subsetSums p g.nodeCount g.volume
    return Scalar.sum (volumes.toList.map fun volume => volume * volume) /
      (Scalar.ofCount 4 * total * total)

/-- Coverage less the coverage to be expected by chance. -/
def modularity (p : Partition) (g : Graph W) : Except (Failure EngineError) W := do
  (p.ensureTotal g.nodeCount).mapError .error
  let (inside, total) := insideAndTotal p g
  if Scalar.isZero total then throw (.error (noWeight "Modularity"))
  return inside / total - (← expectedCoverage p g total)

end GraphMeasures.Quality
