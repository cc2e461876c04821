import GraphMeasures.Algorithm
import GraphMeasures.Proofs.Partition

/-!
# GraphMeasures — measures of partitions that cover their graph

A measure refuses partitions that leave nodes out. Of a partition that covers the
nodes of its graph it says a number, or that it is undefined there; and modularity,
which has a sum for every subset below the bound, finds a sum for every node.
-/

namespace GraphMeasures

/-- An algorithm or the environment is at fault, and not the graph or the
partition that an operation has made. -/
def EngineError.IsExternal : EngineError → Prop
  | .invalidParameter .. => True
  | .undefinedQuality .. => True
  | .invalidThreadCount _ => True
  | .threadPool _ => True
  | _ => False

/-- The measures that come with the library. -/
inductive QualityMeasure.BuiltIn : QualityMeasure → Prop where
  | coverage : BuiltIn .coverage
  | edgeCut : BuiltIn .edgeCut
  | hubDominance : BuiltIn .hubDominance
  | modularity : BuiltIn .modularity

namespace Quality

variable {W : Type} [Scalar W] {p : Partition} {g : Graph W}

/-- Coverage ends in a number or it is undefined; a partition that covers the
nodes has none of the other faults. -/
theorem ends_coverage (h : p.Covers g.nodeCount) :
    Ends (fun _ => True) EngineError.IsExternal (coverage p g) := by
  rw [coverage, h.ensureTotal_eq]
  show Ends _ _ (if _ then _ else _)
  split
  · trivial
  · trivial

/-- The cut divides by nothing, so it is always defined. -/
theorem ends_edgeCut (h : p.Covers g.nodeCount) :
    Ends (fun _ => True) EngineError.IsExternal (edgeCut p g) := by
  rw [edgeCut, h.ensureTotal_eq]
  trivial

/-- Hub dominance is undefined only where there are no subsets at all. The lists
that it looks up are as long as the bound, and what is beyond their end is
passed over. -/
theorem ends_hubDominance (h : p.Covers g.nodeCount) :
    Ends (fun _ => True) EngineError.IsExternal (hubDominance p g) := by
  rw [hubDominance, h.ensureTotal_eq]
  show Ends _ _ (if _ then _ else _)
  split
  · trivial
  · trivial

/-- In a partition that covers the nodes every subset is below the bound, so the
sums are made: one after the other, each node adds to the sum of its subset. -/
theorem subsetSums_of_covers {nodeCount : Nat} (h : p.Covers nodeCount) (quantity : Nat → W) :
    subsetSums p nodeCount quantity =
      (List.range nodeCount).foldlM (addToSubset p quantity)
        (Array.replicate p.upperBound Scalar.zero) := by
  refine if_pos (List.all_eq_true.2 fun node _ => ?_)
  rw [Option.all_eq_true]
  exact fun subset hsubset => decide_eq_true (h.lt_upperBound node subset hsubset)

/-- Every node finds the sum of its subset, so no position is out of range. What
the loop keeps is that there are as many sums as the bound says. -/
theorem ends_subsetSums {nodeCount : Nat} (h : p.Covers nodeCount) (quantity : Nat → W) :
    Ends (fun _ => True) Never (subsetSums p nodeCount quantity) := by
  have hsums : Ends (fun sums => sums.size = p.upperBound) Never
      (subsetSums p nodeCount quantity) := by
    rw [subsetSums_of_covers h]
    -- there stay as many sums as the bound says, and every subset is below it
    refine Ends.foldlM Array.size_replicate fun sums hsums node hnode => ?_
    unfold addToSubset
    cases hsubset : p.subsetOf node with
    | none => exact hsums
    | some subset =>
      have hlt : subset < sums.size := by
        rw [hsums]
        exact h.lt_upperBound node subset hsubset
      simp only [Checked.modify_eq_ok _ hlt]
      show (sums.modify subset _).size = _
      rw [Array.size_modify, hsums]
  exact hsums.mono (fun _ _ => trivial) fun _ he => he

/-- The coverage to be expected is a number, in both directions: the sums are
there, and the division by the weight is left to those who ask. -/
theorem ends_expectedCoverage (h : p.Covers g.nodeCount) (total : W) :
    Ends (fun _ => True) Never (expectedCoverage p g total) := by
  unfold expectedCoverage
  split
  · refine (ends_subsetSums h _).bind fun out _ => ?_
    refine (ends_subsetSums h _).bind fun into _ => ?_
    trivial
  · refine (ends_subsetSums h _).bind fun volumes _ => ?_
    trivial

/-- Modularity ends in a number or it is undefined. Neither the sums nor the
test on the weight panic. -/
theorem ends_modularity (h : p.Covers g.nodeCount) :
    Ends (fun _ => True) (Failure.Is EngineError.IsExternal) (modularity p g) := by
  rw [modularity, h.ensureTotal_eq]
  show Ends _ _ (if _ then _ else _)
  split
  · trivial
  · -- the only panics there could be are those of the sums
    have hexpected : Ends (fun _ => True) (Failure.Is EngineError.IsExternal)
        (expectedCoverage p g (insideAndTotal p g).2) :=
      (ends_expectedCoverage h _).mono (fun _ ha => ha) fun _ he => he.elim
    refine hexpected.bind fun expected _ => ?_
    trivial

end Quality

/-! ## The algorithms -/

namespace QualityMeasure

/-- A measure that may panic runs as its function ends. -/
theorem keeps_ofFunction {name : String}
    {f : Partition → Graph Float → Except (Failure EngineError) Float} {p : Partition}
    {g : Graph Float} {good : EngineError → Prop}
    (h : Ends (fun _ => True) (Failure.Is good) (f p g)) :
    ((ofFunction name f).compute p g).Keeps (fun _ => True) (fun _ => True) good :=
  Run.keeps_scene.bind fun _ _ => Run.keeps_ofOutcome h

/-- A measure that only knows errors runs as its function ends. -/
theorem keeps_ofSafeFunction {name : String}
    {f : Partition → Graph Float → Except EngineError Float} {p : Partition} {g : Graph Float}
    {good : EngineError → Prop} (h : Ends (fun _ => True) good (f p g)) :
    ((ofSafeFunction name f).compute p g).Keeps (fun _ => True) (fun _ => True) good :=
  keeps_ofFunction (Ends.mapError h)

/-- **Built-in measures say a number or that they are undefined** when the
partition covers the nodes of the graph. That is the one error they are left
with, since the others are about partitions that leave nodes out or belong to
other graphs. -/
theorem keeps_quality {p : Partition} {g : Graph Float} (h : p.Covers g.nodeCount)
    {measure : QualityMeasure} (hmeasure : measure.BuiltIn) :
    (measure.compute p g).Keeps (fun _ => True) (fun _ => True) EngineError.IsExternal := by
  cases hmeasure with
  | coverage => exact keeps_ofSafeFunction (Quality.ends_coverage h)
  | edgeCut => exact keeps_ofSafeFunction (Quality.ends_edgeCut h)
  | hubDominance => exact keeps_ofSafeFunction (Quality.ends_hubDominance h)
  | modularity => exact keeps_ofFunction (Quality.ends_modularity h)

end QualityMeasure

end GraphMeasures
