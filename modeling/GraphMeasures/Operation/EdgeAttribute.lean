import GraphMeasures.Operation.Loading
import GraphMeasures.Registry

/-!
# GraphMeasures — the operation that scores edges

Reads the graph `vs`, `es` with the optional `weight`, computes the edge score
named by the parameter `op` with the parameter `options`, and writes it to
`attr` as one value for every row of `es`. Nothing is written unless all of it
succeeds.
-/

namespace GraphMeasures.Operation

def edgeAttributeName : String := "ComputeDoubleEdgeAttribute"

/-- Computes an edge score from a registry. -/
def edgeAttribute (registry : EdgeScoreRegistry) : Host.Action Unit :=
  Run.span "adapter.edge_attribute" [] do
    let op ← Host.text "op"
    Run.record "op" (.text op)
    let options ← Host.options "options"
    let score ← Run.ofExcept id (registry.build op options)
    let config ← Run.config options
    Run.record "seed" (.count config.seed.toNat)
    let vertices ← Host.vertexSet "vs"
    let edges ← Host.edgeBundle "es"
    let weights ← Host.doubleAttribute? "weight"
    let directed ← Run.ofExcept .options options.directed
    let g ← Run.mapError .conversion (Run.loadGraph vertices edges weights directed)
    let scores ← Run.mapError .engine (Run.lift (score.compute g config))
    let values ← Run.reconcile g edges scores
    Host.output "attr" (.doubleAttribute values)

end GraphMeasures.Operation
