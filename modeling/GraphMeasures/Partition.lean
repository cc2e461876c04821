import Std.Data.TreeSet
import GraphMeasures.EngineError
import GraphMeasures.Quantity

/-!
# GraphMeasures — partitions of the nodes

A `Partition` assigns nodes to numbered subsets; nodes may be left out, and any
number can name a subset. `upperBound` is above every subset that was ever
assigned, except that it stays at the largest index.
-/

namespace GraphMeasures

/-- An assignment of nodes to subsets. -/
structure Partition where
  subsets : Array (Option Nat)
  upperBound : Nat
deriving Repr, BEq, DecidableEq, Inhabited

namespace Partition

def unassigned (nodeCount : Nat) : Partition :=
  ⟨Array.replicate nodeCount none, 0⟩

def singletons (nodeCount : Nat) : Partition :=
  ⟨(Array.range nodeCount).map some, nodeCount⟩

/-- The number of nodes, assigned or not. -/
def size (p : Partition) : Nat :=
  p.subsets.size

/-- The subset of a node, if it has one. -/
def subsetOf (p : Partition) (node : Nat) : Option Nat :=
  p.subsets[node]?.join

/-- Moves a node into a subset. -/
def assign (p : Partition) (node subset : Nat) : Except EngineError Partition :=
  if node < p.size then
    .ok ⟨p.subsets.setIfInBounds node (some subset), max p.upperBound (Index.next subset)⟩
  else .error (.invalidNodeId node p.size)

/-- The number of nodes in each subset below `upperBound`. -/
def subsetSizes (p : Partition) : Array Nat :=
  p.subsets.foldl
    (fun sizes subset =>
      match subset with
      | some id => sizes.modify id (· + 1)
      | none => sizes)
    (Array.replicate p.upperBound 0)

/-- The subsets below `upperBound` that have a node. -/
def usedSubsets (p : Partition) : Std.TreeSet Nat :=
  p.subsets.foldl
    (fun used subset =>
      match subset with
      | some id => if id < p.upperBound then used.insert id else used
      | none => used)
    ∅

/-- The number of subsets that have a node. -/
def subsetCount (p : Partition) : Nat :=
  p.usedSubsets.size

/-- Refuses a partition of another number of nodes, and one that leaves a node
out. -/
def ensureTotal (p : Partition) (nodeCount : Nat) : Except EngineError Unit :=
  if p.size ≠ nodeCount then .error (.partitionSizeMismatch p.size nodeCount)
  else
    match p.subsets.findIdx? (·.isNone) with
    | some node => .error (.unassignedNode node)
    | none => .ok ()

end Partition

end GraphMeasures
