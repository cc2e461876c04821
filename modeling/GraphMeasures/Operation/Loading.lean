import GraphMeasures.Host
import GraphMeasures.Reconciliation

/-!
# GraphMeasures — conversions inside a run

The conversions between entities and graphs as steps of a run: each in a span
of its own, with what it has made in the journal.
-/

namespace GraphMeasures.Run

variable {σ : Type}

/-- Makes the graph that a bundle describes. -/
def loadGraph (vertices : VertexSet) (edges : EdgeBundle) (weights : Option Attribute)
    (directed : Bool) : Run σ ConversionError (Graph Float) :=
  span "adapter.convert"
    [("vertices", .count vertices.size), ("edges", .count edges.size),
     ("weighted", .flag weights.isSome), ("directed", .flag directed)]
    do
      let g ← ofExcept id (Conversion.toGraph vertices edges weights directed)
      log .debug "indexed graph edges"
        [("nodes", .count g.nodeCount), ("edges", .count g.edgeCount), ("directed", .flag g.directed)]
      log .debug "engine graph constructed" [("edge_id_bound", .count g.edgeIdBound)]
      return g

/-- Makes the partition that a segmentation describes. -/
def loadPartition (vertices segments : VertexSet) (belongsTo : EdgeBundle) :
    Run σ ConversionError Partition :=
  span "adapter.convert_partition"
    [("vertices", .count vertices.size), ("segments", .count segments.size),
     ("memberships", .count belongsTo.size)]
    do
      let (p, next) ← ofExcept id (Conversion.placeVertices vertices segments belongsTo)
      if segments.size < next then
        log .debug "placed unsegmented vertices in singleton subsets"
          [("unsegmented", .count (next - segments.size))]
      return p

/-- Gives the rows of a bundle the scores of their edges. -/
def reconcile (g : Graph Float) (edges : EdgeBundle) (scores : Array Float) :
    Run σ OperationError Attribute :=
  span "adapter.reconcile" [("edges", .count edges.size), ("scores", .count scores.size)]
    (ofExcept id (Reconciliation.toAttribute g edges scores))

end GraphMeasures.Run
