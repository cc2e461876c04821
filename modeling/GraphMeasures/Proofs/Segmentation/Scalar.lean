import GraphMeasures.Proofs.Exact
import GraphMeasures.Proofs.Operation
import GraphMeasures.Proofs.Reading

/-!
# GraphMeasures — the scalar of a segmentation

With the built-in measures the operation on segmentations is a function of its
inputs and parameters, and in that function the arithmetic of the weights can be
exchanged.

* `Segmentation.scalarIn` — the scalar that an accessor describes, with the weights
  read as values of some `Scalar`.
* `Operation.segmentationScalar_builtin` — the operation writes that scalar, for
  doubles as they are.
-/

namespace GraphMeasures

namespace Quality

/-- The built-in measures by their names, in any arithmetic. -/
def byName? {W : Type} [Scalar W] :
    String → Option (Partition → Graph W → Except (Failure EngineError) W)
  | "Coverage" => some fun p g => (coverage p g).mapError .error
  | "EdgeCut" => some fun p g => (edgeCut p g).mapError .error
  | "HubDominance" => some fun p g => (hubDominance p g).mapError .error
  | "Modularity" => some modularity
  | _ => none

end Quality

/-- What a segmentation is worth by the built-in measures. -/
def Segmentation.worth {W : Type} [Scalar W] (value : Float → W) (s : Segmentation) :
    Except (Failure OperationError) W :=
  match Quality.byName? s.op with
  | none => .error (.error (.unsupportedAlgorithm "quality measure" s.op))
  | some measure => do
    let (g, p) ← s.held.mapError .error
    (measure p (g.map value)).mapError (Failure.map .engine)

/-- The scalar that inputs and parameters describe. -/
def Segmentation.scalarIn {W : Type} [Scalar W] (value : Float → W) (a : Accessor) :
    Except (Failure OperationError) W := do
  let s ← described a
  s.worth value

/-! ## The measures -/

/-- The built-in registry knows the measures by name, and the options have no
say. -/
theorem QualityRegistry.build_builtin (name : String) (options : Options) :
    match (Quality.byName? name : Option (Partition → Graph Float → _)) with
    | none => builtin.build name options =
        .error (.unsupportedAlgorithm "quality measure" name)
    | some f => builtin.build name options = .ok (.ofFunction name f) := by
  simp only [builtin, Registry.build_register, Registry.build_empty, Quality.byName?]
  -- the last to be registered is asked first
  by_cases hmodularity : name = "Modularity"
  · subst hmodularity
    exact if_pos rfl
  by_cases hhubDominance : name = "HubDominance"
  · subst hhubDominance
    exact (if_neg hmodularity).trans (if_pos rfl)
  by_cases hedgeCut : name = "EdgeCut"
  · subst hedgeCut
    exact (if_neg hmodularity).trans ((if_neg hhubDominance).trans (if_pos rfl))
  by_cases hcoverage : name = "Coverage"
  · subst hcoverage
    exact (if_neg hmodularity).trans ((if_neg hhubDominance).trans
      ((if_neg hedgeCut).trans (if_pos rfl)))
  · simp [hmodularity, hhubDominance, hedgeCut, hcoverage]

/-- Weights that are left as they are leave the graph as it is. -/
theorem Graph.map_id {W : Type} (g : Graph W) : g.map id = g := by
  simp [Graph.map]

/-! ## The operation -/

/-- A measure comes to what its function says, in whatever surroundings. -/
theorem QualityMeasure.answers_ofFunction {around : Surroundings} (name : String)
    (f : Partition → Graph Float → Except (Failure EngineError) Float) (p : Partition)
    (g : Graph Float) : ((ofFunction name f).compute p g).Answers () around (f p g) :=
  Run.Answers.atScene fun scene _ => Run.answers_ofOutcome scene.thread (f p g)

namespace Segmentation

variable {σ : Type} {own : σ} {around : Surroundings}

/-- The measure of a segmentation comes to its worth, in doubles. First the name
is looked up, then the resources, so an unknown name is the error in any
case. -/
theorem answers_quality (s : Segmentation) :
    (s.quality .builtin : Run σ OperationError Float).Answers own around (s.worth id) := by
  have hbuild := QualityRegistry.build_builtin s.op s.options
  -- the name settles which measure it is, or that there is none
  unfold worth quality
  cases hname : (Quality.byName? s.op : Option (Partition → Graph Float → _)) with
  | none =>
    rw [hname] at hbuild
    rw [hbuild]
    exact fun stage hstage => ⟨rfl, hstage⟩
  | some measure =>
    rw [hname] at hbuild
    rw [hbuild]
    refine (Run.answers_ofExcept id s.held).bind fun held _ => ?_
    obtain ⟨g, p⟩ := held
    show Run.Answers own around ((measure p (g.map id)).mapError _) _
    rw [Graph.map_id]
    exact (QualityMeasure.answers_ofFunction s.op measure p g).lift.mapError

/-- A release always succeeds, and says whether there was anything to
release. -/
theorem answers_release {ε : Type} (s : Segmentation) :
    (s.release : Run σ ε _).Answers own around (.ok (s.isLive, s.released)) := by
  unfold release
  split
  · exact (Run.answers_log _ _ _).andThen (Run.answers_pure _)
  · exact Run.answers_pure _

end Segmentation

/-- What the operation does before its output: it loads, measures and releases. -/
def Segmentation.scalar : Host.Action Float := do
  let segmentation ← load
  let outcome ← Run.attempt (segmentation.quality .builtin)
  let _ ← segmentation.release
  Run.resume outcome

/-- The operation without its output comes to the scalar that is described. -/
theorem Segmentation.answers_scalar {host : Host} {around : Surroundings} :
    scalar.Answers host around (scalarIn id host.accessor) := by
  refine answers_load.bind fun s _ => ?_
  refine (answers_quality s).attempt.andThen ?_
  exact (answers_release s).andThen (Run.answers_resume _)

namespace Operation

/-- **What the operation writes.** With the built-in measures the operation on
segmentations writes the scalar that its inputs and parameters describe, unless the
host refuses it; without such a scalar it fails as the description does. -/
theorem segmentationScalar_builtin (stage : Stage Host) :
    stage.own.Writes "sc" .scalar (Segmentation.scalarIn id stage.own.accessor)
      ((segmentationScalar .builtin).on stage).1
      ((segmentationScalar .builtin).on stage).2.own := by
  have hbody : segmentationScalar .builtin = Run.span "adapter.segmentation_scalar" []
      (Segmentation.scalar >>= Host.outputScalar "sc") := by
    simp only [segmentationScalar, Segmentation.scalar, bind_assoc]
  rw [hbody]
  exact Host.writes_span Segmentation.answers_scalar "adapter.segmentation_scalar" .outputScalar
    "sc" .scalar

end Operation

end GraphMeasures
