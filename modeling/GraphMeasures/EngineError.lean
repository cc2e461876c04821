import GraphMeasures.Decimal.Shortest

/-!
# GraphMeasures — what graphs, partitions and algorithms can refuse

`EngineError` lists the causes, `EngineError.message` words them and
`EngineError.code` gives each its stable code.
-/

namespace GraphMeasures

/-- Why a graph, a partition, an algorithm or the settings of a run refused. -/
inductive EngineError where
  | invalidNodeId (node nodeCount : Nat)
  | nonFiniteWeight (source target : Nat) (weight : Float)
  | edgesNotIndexed
  | missingEdge (source target : Nat)
  | partitionSizeMismatch (partition nodeCount : Nat)
  | unassignedNode (node : Nat)
  | invalidParameter (name reason : String)
  | undefinedQuality (measure reason : String)
  | invalidThreadCount (value : String)
  | threadPool (message : String)
deriving Repr, BEq, Inhabited

namespace EngineError

def message : EngineError → String
  | invalidNodeId node nodeCount =>
    s!"node {node} is out of bounds (node_count is {nodeCount})"
  | nonFiniteWeight source target weight =>
    s!"edge ({source}, {target}) has non-finite weight " ++ Decimal.plain weight
  | edgesNotIndexed => "graph edges have not been indexed"
  | missingEdge source target => s!"graph has no edge from {source} to {target}"
  | partitionSizeMismatch partition nodeCount =>
    s!"partition covers {partition} nodes but the graph has {nodeCount}"
  | unassignedNode node => s!"node {node} is not assigned to any subset"
  | invalidParameter name reason => s!"invalid parameter `{name}`: {reason}"
  | undefinedQuality measure reason => s!"{measure} is undefined: {reason}"
  | invalidThreadCount value =>
    s!"invalid thread count `{value}`; expected a positive integer"
  | threadPool message => s!"failed to build worker pool: {message}"

/-- The code of an error, which does not change with its wording. -/
def code : EngineError → String
  | invalidNodeId .. => "ENGINE_INVALID_NODE_ID"
  | nonFiniteWeight .. => "ENGINE_NON_FINITE_WEIGHT"
  | edgesNotIndexed => "ENGINE_EDGES_NOT_INDEXED"
  | missingEdge .. => "ENGINE_MISSING_EDGE"
  | partitionSizeMismatch .. => "ENGINE_PARTITION_SIZE_MISMATCH"
  | unassignedNode .. => "ENGINE_UNASSIGNED_NODE"
  | invalidParameter .. => "ENGINE_INVALID_PARAMETER"
  | undefinedQuality .. => "ENGINE_UNDEFINED_QUALITY"
  | invalidThreadCount .. => "ENGINE_INVALID_THREAD_COUNT"
  | threadPool .. => "ENGINE_THREAD_POOL"

end EngineError

instance : ToString EngineError := ⟨EngineError.message⟩

end GraphMeasures
