import GraphMeasures.Operation.Loading
import GraphMeasures.Registry

/-!
# GraphMeasures — a segmentation held by an operation

A `Segmentation` is a graph with a partition of its nodes, loaded from `vs`,
`es`, the optional `weight`, `segments` and `belongsTo`, together with the
parameters of the operation. Graph and partition are held until they are
released, which happens once: a release that comes later finds nothing to do,
and what is asked of a released segmentation is refused.
-/

namespace GraphMeasures

/-- A segmentation that an operation works on. -/
structure Segmentation where
  op : String
  options : Options
  /-- Nothing after the release. -/
  resources : Option (Graph Float × Partition)
deriving Inhabited

namespace Segmentation

variable {σ ε : Type}

/-- Loads the segmentation that the inputs of an operation describe. -/
def load : Host.Action Segmentation :=
  Run.span "adapter.segmentation_helper" [] do
    let op ← Host.text "op"
    let options ← Host.options "options"
    let directed ← Run.ofExcept .options options.directed
    let vertices ← Host.vertexSet "vs"
    let edges ← Host.edgeBundle "es"
    let weights ← Host.doubleAttribute? "weight"
    let segments ← Host.vertexSet "segments"
    let belongsTo ← Host.edgeBundle "belongsTo"
    let g ← Run.mapError .conversion (Run.loadGraph vertices edges weights directed)
    let p ← Run.mapError .conversion (Run.loadPartition vertices segments belongsTo)
    Run.log .debug "segmentation resources acquired"
      [("op", .text op), ("subsets", .count p.subsetCount)]
    return ⟨op, options, some (g, p)⟩

/-- Whether graph and partition are still held. -/
def isLive (s : Segmentation) : Bool :=
  s.resources.isSome

/-- Graph and partition, while they are held. -/
def held (s : Segmentation) : Except OperationError (Graph Float × Partition) :=
  match s.resources with
  | some resources => .ok resources
  | none => .error .resourcesReleased

def graph (s : Segmentation) : Except OperationError (Graph Float) := do
  return (← s.held).1

def partition (s : Segmentation) : Except OperationError Partition := do
  return (← s.held).2

/-- Computes the measure named by the parameter `op`. -/
def quality (s : Segmentation) (registry : QualityRegistry) : Run σ OperationError Float := do
  let measure ← Run.ofExcept id (registry.build s.op s.options)
  let (g, p) ← Run.ofExcept id s.held
  Run.mapError .engine (Run.lift (measure.compute p g))

/-- The segmentation without graph and partition. -/
def released (s : Segmentation) : Segmentation :=
  { s with resources := none }

/-- Releases graph and partition; the answer tells whether they were still
held. -/
def release (s : Segmentation) : Run σ ε (Bool × Segmentation) := do
  if s.isLive then
    Run.log .debug "segmentation resources released" [("op", .text s.op)]
  return (s.isLive, s.released)

end Segmentation

namespace Operation

def segmentationScalarName : String := "ComputeSegmentationScalar"

/-- Computes the quality of a segmentation with a measure from a registry and
writes it to `sc`. Graph and partition are released before that, and also when
the measure fails or panics. -/
def segmentationScalar (registry : QualityRegistry) : Host.Action Unit :=
  Run.span "adapter.segmentation_scalar" [] do
    let segmentation ← Segmentation.load
    -- the end of the measure waits until the segmentation is released
    let outcome ← Run.attempt (segmentation.quality registry)
    let _ ← segmentation.release
    let value ← Run.resume outcome
    Host.outputScalar "sc" value

end Operation

end GraphMeasures
