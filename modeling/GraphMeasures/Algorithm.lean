import GraphMeasures.Quality
import GraphMeasures.Run
import GraphMeasures.Score.Basic
import GraphMeasures.Score.ForestFire

/-!
# GraphMeasures — algorithms as objects

Operations choose their algorithm by name, so algorithms are values: an
`EdgeScore` gives a double to every edge id of a graph, a `QualityMeasure` gives
one to a partition. An algorithm sees its arguments only; it can log, fail and
panic, but it has no part in the inputs and outputs of the operation.
-/

namespace GraphMeasures

/-- An algorithm that scores the edges of a graph by their id. -/
structure EdgeScore where
  name : String
  compute : Graph Float → RunConfig → Run Unit EngineError (Array Float)

/-- An algorithm that scores a partition of the nodes of a graph. -/
structure QualityMeasure where
  name : String
  compute : Partition → Graph Float → Run Unit EngineError Float

namespace EdgeScore

/-- The fields that the spans of algorithms share. -/
def sizeFields (g : Graph Float) : Journal.Fields :=
  [("nodes", .count g.nodeCount), ("edges", .count g.edgeCount)]

/-- Computes on a worker of the pool of a run. A pool that cannot be built is an
error, and then nothing is computed. -/
def onPool {α : Type} (config : RunConfig) (outcome : Except (Failure EngineError) α) :
    Run Unit EngineError α := do
  Run.ofExcept id (config.buildPool (← Run.scene).machine)
  Run.ofOutcome (.worker config.workerTag) outcome

/-- Scores an edge by the triangles it lies on. -/
def triangle : EdgeScore where
  name := "TriangleEdgeScore"
  compute g config :=
    Run.span "engine.triangles" (sizeFields g) do
      let _ ← Run.ofExcept id g.requireIndex
      onPool config (Score.triangles g)

/-- Scores every edge by chance. -/
def uniform : EdgeScore where
  name := "RandomEdgeScore"
  compute g config := Run.ofExcept id (Score.uniform g config.seed)

/-- What a forest fire run logs when it is done. -/
def logBurning {σ ε : Type} (target : Nat) (b : Score.Burning) : Run σ ε Unit := do
  if Score.maxIdleRounds ≤ b.idle then
    Run.log .warn "forest fires stopped spreading, returning partial scores"
      [("burnt", .count b.burnt), ("target", .count target)]
  Run.log .debug "forest fire score completed"
    [("burnt", .count b.burnt), ("target", .count target), ("fires", .count b.fires)]

/-- Scores an edge by the forest fires that burn it. On a graph without edges no
pool is built. -/
def forestFire (f : Score.ForestFire) : EdgeScore where
  name := "ForestFireScore"
  compute g config := do
    let workers := config.workers (← Run.scene).machine
    Run.span "engine.forest_fire"
      (sizeFields g ++ [("seed", .count config.seed.toNat), ("threads", .count workers)])
      do
        let index ← Run.ofExcept id g.requireIndex
        if g.edgeCount = 0 then return (Score.Burning.start index.bound).hits.map Float.ofNat
        let burning ← onPool config (f.burning g config.seed)
        logBurning (f.target g.edgeCount) burning
        return burning.hits.map Float.ofNat

end EdgeScore

namespace QualityMeasure

/-- The measure that a function of partition and graph is. It runs on the thread
that asks for it. -/
def ofFunction (name : String)
    (f : Partition → Graph Float → Except (Failure EngineError) Float) : QualityMeasure where
  name := name
  compute p g := do
    Run.ofOutcome (← Run.scene).thread (f p g)

/-- The measure that a function without panics is. -/
def ofSafeFunction (name : String) (f : Partition → Graph Float → Except EngineError Float) :
    QualityMeasure :=
  ofFunction name fun p g => (f p g).mapError .error

/-- The share of the weight inside subsets. -/
def coverage : QualityMeasure := ofSafeFunction "Coverage" Quality.coverage

/-- The weight between subsets. -/
def edgeCut : QualityMeasure := ofSafeFunction "EdgeCut" Quality.edgeCut

/-- How far subsets are dominated by their hubs. -/
def hubDominance : QualityMeasure := ofSafeFunction "HubDominance" Quality.hubDominance

/-- Coverage less what chance would give. -/
def modularity : QualityMeasure := ofFunction "Modularity" Quality.modularity

end QualityMeasure

end GraphMeasures
