import GraphMeasures.Operation.Repository
import GraphMeasures.Proofs.Quality
import GraphMeasures.Proofs.Reconciliation
import GraphMeasures.Proofs.Score

/-!
# GraphMeasures — why operations fail

The operations that are always there check little themselves. That they fail for
external reasons only (`OperationError.IsExternal`) is the work of those who
made what they work on: a conversion makes graphs that scores can use, and
partitions that measures can use; a score has a value for every id; and
reconciliation finds the edge of every row.

* `execute_ends` — an operation ends well, or with an error that its inputs, its
  parameters or its environment are to blame for.
-/

namespace GraphMeasures

/-- The inputs, the parameters or the environment are at fault. -/
def OperationError.IsExternal : OperationError → Prop
  | .access _ => True
  | .options _ => True
  | .unsupportedAlgorithm .. => True
  | .ambiguousEdge .. => True
  | .conversion e => e.IsInput
  | .engine e => e.IsExternal
  | _ => False

/-- A machine that refuses a pool is an external reason. -/
theorem EngineError.IsPool.isExternal {e : EngineError} (h : e.IsPool) : e.IsExternal := by
  cases e with
  | threadPool message => trivial
  | _ => exact h.elim

/-! ## Registries -/

namespace Registry

variable {α : Type} {post : α → Prop} {r : Registry α}

/-- In an empty registry nothing is found, and the error names the family of
algorithms and the name that was asked for. -/
theorem build_empty (family name : String) (options : Options) :
    (empty family : Registry α).build name options =
      .error (.unsupportedAlgorithm family name) := by
  simp [build, empty]

/-- What is under a name after a registration: the factory that was registered
under it, or else what was there before. -/
theorem build_register (r : Registry α) (name asked : String) (factory : Factory α)
    (options : Options) :
    (r.register name factory).build asked options =
      if asked = name then factory options else r.build asked options := by
  unfold build register
  rw [Std.TreeMap.getElem?_insert]
  -- the name that was asked for is the new one or an earlier one
  by_cases hname : asked = name
  · rw [if_pos (Std.compare_eq_iff_eq.2 hname.symm), if_pos hname]
  · rw [if_neg fun h => hname (Std.compare_eq_iff_eq.1 h).symm, if_neg hname]

/-- What a registry builds has a property; where it builds nothing it is not to
blame. -/
def Builds (r : Registry α) (post : α → Prop) : Prop :=
  ∀ name options, Ends post OperationError.IsExternal (r.build name options)

/-- Nothing can go wrong with factories where there are none. -/
theorem builds_empty (family : String) : (empty family : Registry α).Builds post :=
  fun _ _ => trivial

/-- One more factory keeps the promise of a registry, if the factory keeps
it. -/
theorem Builds.register (h : r.Builds post) (name : String) {factory : Factory α}
    (hfactory : ∀ options, Ends post OperationError.IsExternal (factory options)) :
    (r.register name factory).Builds post := by
  intro asked options
  rw [build_register]
  by_cases hname : asked = name
  · rw [if_pos hname]
    exact hfactory options
  · rw [if_neg hname]
    exact h asked options

end Registry

/-- The factory of forest fires reads two options, each of which may have the
wrong kind or a value that the score does not take. What it makes is a built-in
score. -/
theorem ends_forestFireFactory (options : Options) :
    Ends EdgeScore.BuiltIn OperationError.IsExternal (forestFireFactory options) := by
  -- the two options are read and then checked; each step has such errors only
  have hoption : ∀ name, Ends (fun _ => True) OperationError.IsExternal
      ((options.double name).mapError .options) := by
    intro name
    cases options.double name <;> trivial
  refine (hoption "spread_prob").bind fun spread _ => ?_
  refine (hoption "burn_ratio").bind fun ratio _ => ?_
  have hcreate : Ends (fun _ => True) OperationError.IsExternal
      ((Score.ForestFire.create spread ratio).mapError .engine) := by
    unfold Score.ForestFire.create
    split
    · trivial
    · split <;> trivial
  refine hcreate.bind fun f _ => ?_
  exact EdgeScore.BuiltIn.forestFire f

/-- All scores of the library are built-in, so what holds of those holds of
whatever is found in its registry, and a name that is not there is the fault of
who asks. -/
theorem builds_scores : EdgeScoreRegistry.builtin.Builds EdgeScore.BuiltIn := by
  unfold EdgeScoreRegistry.builtin
  refine (((Registry.builds_empty _).register _ ?_).register _ ?_).register _ ?_
  · exact ends_forestFireFactory
  · exact fun _ => EdgeScore.BuiltIn.triangle
  · exact fun _ => EdgeScore.BuiltIn.uniform

/-- The same for the measures, whose factories have no options and never
fail. -/
theorem builds_measures : QualityRegistry.builtin.Builds QualityMeasure.BuiltIn := by
  unfold QualityRegistry.builtin
  refine ((((Registry.builds_empty _).register _ ?_).register _ ?_).register _ ?_).register _ ?_
  · exact fun _ => QualityMeasure.BuiltIn.coverage
  · exact fun _ => QualityMeasure.BuiltIn.edgeCut
  · exact fun _ => QualityMeasure.BuiltIn.hubDominance
  · exact fun _ => QualityMeasure.BuiltIn.modularity

/-! ## The host -/

namespace Host

/-- The host gives the inputs that there are. -/
def Offers (inputs : Std.TreeMap String Entity) (host : Host) : Prop :=
  host.accessor.inputs = inputs

variable {α : Type} {inputs : Std.TreeMap String Entity} {post : α → Prop}

/-- Asking fails as an access. What is said of every value that the accessor
could give for the inputs is true of the one that it gives. -/
theorem keeps_ask {method : Journal.Method} {name : String}
    {read : Accessor → String → Except AccessError α}
    (h : ∀ accessor, accessor.inputs = inputs → ∀ a, read accessor name = .ok a → post a) :
    (ask method name read).Keeps (Offers inputs) post OperationError.IsExternal := by
  refine (Run.keeps_modifyJournal _).bind fun _ _ => ?_
  intro stage hstage
  simp only [Run.on_bind, Run.on_get]
  refine Run.keeps_ofExcept ?_ stage hstage
  cases hread : read stage.own.accessor name with
  | ok a => exact h stage.own.accessor hstage a hread
  | error e => trivial

/-- A set of vertices that was asked for is the input of that name. If there is
none, or one of another kind, the error is one that the caller can cause. -/
theorem keeps_vertexSet (name : String) :
    (vertexSet name).Keeps (Offers inputs)
      (fun vertices => inputs[name]? = some (.vertexSet vertices)) OperationError.IsExternal := by
  refine keeps_ask fun accessor hinputs vertices hread => ?_
  rw [← hinputs]
  unfold Accessor.vertexSet at hread
  split at hread
  · next found heq =>
    obtain rfl := Except.ok.inj hread
    exact heq
  · exact absurd hread (by simp)
  · exact absurd hread (by simp)

/-- Writing changes no input. The host may refuse the output, which is an access
that failed. -/
theorem keeps_write (name : String) (entity : Entity) :
    (write name entity).Keeps (Offers inputs) (fun _ => True) OperationError.IsExternal := by
  intro stage hstage
  simp only [write, Run.on_bind, Run.on_get]
  split
  · exact ⟨hstage, trivial⟩
  · exact ⟨hstage, trivial⟩

/-- Writing an entity changes no input. -/
theorem keeps_output (name : String) (entity : Entity) :
    (output name entity).Keeps (Offers inputs) (fun _ => True) OperationError.IsExternal :=
  (Run.keeps_modifyJournal _).bind fun _ _ => keeps_write name entity

theorem keeps_outputScalar (name : String) (x : Float) :
    (outputScalar name x).Keeps (Offers inputs) (fun _ => True) OperationError.IsExternal :=
  (Run.keeps_modifyJournal _).bind fun _ _ => keeps_write name (.scalar x)

end Host

/-! ## Loading -/

namespace Run

variable {σ : Type} {inv : σ → Prop}

/-- The number of threads may be wrong, and so may the seed. Both come from
outside, the one from a variable and the other from the options, so both are
errors of the caller. -/
theorem keeps_config (options : Options) :
    (config options : Run σ OperationError RunConfig).Keeps inv (fun _ => True)
      OperationError.IsExternal := by
  -- the seed comes from the options and the number of threads from the variable
  have hseed : Ends (fun _ => True) OperationError.IsExternal (options.seed.mapError .options) := by
    cases options.seed <;> trivial
  have hthreads : ∀ seed threads, Ends (fun _ => True) OperationError.IsExternal
      ((RunConfig.ofVariable seed threads).mapError .engine) := by
    intro seed threads
    cases threads with
    | unset => trivial
    | unreadable shown => trivial
    | text value =>
      have hparse : Ends (fun _ => True) EngineError.IsExternal (parseThreads value) := by
        unfold parseThreads
        split
        · split <;> trivial
        · trivial
      exact Ends.mapError (hparse.bind fun _ _ => trivial)
  refine keeps_scene.bind fun surroundings _ => keeps_ofExcept ?_
  refine hseed.bind fun seed _ => ?_
  exact (hthreads seed _).bind fun _ _ => trivial

/-- The option for the direction may have the wrong kind. -/
theorem keeps_directed (options : Options) :
    (ofExcept .options options.directed : Run σ OperationError Bool).Keeps inv (fun _ => True)
      OperationError.IsExternal := by
  refine keeps_ofExcept ?_
  cases options.directed <;> trivial

variable {α : Type} {post : α → Prop}

/-- Conversions that fail for what the entities say fail for external
reasons. -/
theorem Keeps.conversion {run : Run σ ConversionError α}
    (h : run.Keeps inv post ConversionError.IsInput) :
    (run.mapError OperationError.conversion).Keeps inv post OperationError.IsExternal := by
  refine Keeps.mapError ?_
  exact h

/-- The same with errors of the engine, if they are about what comes from
outside. -/
theorem Keeps.engine {run : Run σ EngineError α} (h : run.Keeps inv post EngineError.IsExternal) :
    (run.mapError OperationError.engine).Keeps inv post OperationError.IsExternal := by
  refine Keeps.mapError ?_
  exact h

/-- A graph that has been loaded is the one that its entities describe. What is
known of described graphs is then known in all that follows, so no later step
can be blamed for a node that is not there or for edges without ids. -/
theorem keeps_loadGraph (vertices : VertexSet) (edges : EdgeBundle) (weights : Option Attribute)
    (directed : Bool) :
    (loadGraph vertices edges weights directed : Run σ ConversionError (Graph Float)).Keeps inv
      (fun g => ∃ links, Conversion.Describes vertices edges weights directed links ∧
        g = Conversion.graphOf vertices weights directed links) ConversionError.IsInput := by
  refine Keeps.span ?_
  have hgraph : Ends (fun g => ∃ links, Conversion.Describes vertices edges weights directed links ∧
      g = Conversion.graphOf vertices weights directed links) ConversionError.IsInput
      (Conversion.toGraph vertices edges weights directed) := by
    rcases Conversion.toGraph_cases vertices edges weights directed with
      ⟨e, he, hinput⟩ | ⟨links, hlinks, hok⟩
    · rw [he]
      exact hinput
    · rw [hok]
      exact ⟨links, hlinks, rfl⟩
  refine (keeps_ofExcept hgraph).bind fun g hg => ?_
  refine (keeps_log _ _ _).bind fun _ _ => ?_
  exact (keeps_log _ _ _).bind fun _ _ => keeps_pure hg

/-- A partition that has been loaded covers the vertices. Here segments and
vertices together have to be within the indexes. -/
theorem keeps_loadPartition {vertices segments : VertexSet} (belongsTo : EdgeBundle)
    (hsize : segments.size + vertices.size ≤ Index.top) :
    (loadPartition vertices segments belongsTo : Run σ ConversionError Partition).Keeps inv
      (fun p => p.Covers vertices.size) ConversionError.IsInput := by
  refine Keeps.span ?_
  refine (keeps_ofExcept (Conversion.ends_placeVertices belongsTo hsize)).bind fun state hstate => ?_
  obtain ⟨p, next⟩ := state
  by_cases hnext : segments.size < next
  · simp only [if_pos hnext]
    exact (keeps_log _ _ _).bind fun _ _ => keeps_pure hstate
  · simp only [if_neg hnext]
    exact keeps_pure hstate

/-- With a score for every id only rows with the same ends are refused, and
those are a matter of the input: each row has an edge, and each edge an id below
the bound. -/
theorem keeps_reconcile {vertices : VertexSet} {edges : EdgeBundle} {weights : Option Attribute}
    {directed : Bool} {links : List (Link Float)} {scores : Array Float}
    (h : Conversion.Describes vertices edges weights directed links)
    (hscores : (Conversion.graphOf vertices weights directed links).edgeIdBound ≤ scores.size) :
    (reconcile (Conversion.graphOf vertices weights directed links) edges scores :
      Run σ OperationError Attribute).Keeps inv (fun _ => True) OperationError.IsExternal := by
  refine Keeps.span (keeps_ofExcept ?_)
  rcases Reconciliation.toAttribute_cases h hscores with ⟨_, _, _, -, -, herror⟩ |
    ⟨-, _, -, -, hok⟩
  · rw [herror]
    trivial
  · rw [hok]
    trivial

end Run

/-! ## The operations -/

variable {inputs : Std.TreeMap String Entity}

/-- Step by step through the first operation: the graph that is loaded is ready,
so the score is made unless the pool is refused, and it has a value for every
row. -/
theorem keeps_edgeAttribute :
    (Operation.edgeAttribute .builtin).Keeps (Host.Offers inputs) (fun _ => True)
      OperationError.IsExternal := by
  refine Run.Keeps.span ?_
  -- the parameters
  refine (Host.keeps_ask fun _ _ _ _ => trivial).bind fun op _ => ?_
  refine (Run.keeps_record _ _).bind fun _ _ => ?_
  refine (Host.keeps_ask fun _ _ _ _ => trivial).bind fun options _ => ?_
  refine (Run.keeps_ofExcept (builds_scores op options)).bind fun score hscore => ?_
  refine (Run.keeps_config options).bind fun config _ => ?_
  refine (Run.keeps_record _ _).bind fun _ _ => ?_
  -- the graph
  refine (Host.keeps_ask fun _ _ _ _ => trivial).bind fun vertices _ => ?_
  refine (Host.keeps_ask fun _ _ _ _ => trivial).bind fun edges _ => ?_
  refine (Host.keeps_ask fun _ _ _ _ => trivial).bind fun weights _ => ?_
  refine (Run.keeps_directed options).bind fun directed _ => ?_
  refine (Run.keeps_loadGraph vertices edges weights directed).conversion.bind fun g hg => ?_
  obtain ⟨links, hlinks, rfl⟩ := hg
  -- the score, and its way back to the rows
  have hcompute : (score.compute (Conversion.graphOf vertices weights directed links) config).Keeps
      (fun _ => True) _ EngineError.IsExternal :=
    (keeps_compute hlinks.ready hscore config).mono (fun _ hsize => hsize) fun _ he =>
      he.isExternal
  refine hcompute.lift.engine.bind fun scores hsize => ?_
  refine (Run.keeps_reconcile hlinks hsize).bind fun values _ => ?_
  exact Host.keeps_output "attr" _

/-- The numbers that the vertices without a segment get do not overflow. -/
def Fits (inputs : Std.TreeMap String Entity) : Prop :=
  ∀ vertices segments : VertexSet, inputs["vs"]? = some (.vertexSet vertices) →
    inputs["segments"]? = some (.vertexSet segments) →
    segments.size + vertices.size ≤ Index.top

/-- A segmentation holds a graph and a partition that covers its nodes. -/
def Segmentation.Loaded (s : Segmentation) : Prop :=
  ∃ g p, s.resources = some (g, p) ∧ p.Covers g.nodeCount

/-- A segmentation that has been loaded has a partition that covers its graph:
both are made from the same set of vertices. Every measure that is built in can
then be asked. -/
theorem Segmentation.keeps_load (hfits : Fits inputs) :
    load.Keeps (Host.Offers inputs) Loaded OperationError.IsExternal := by
  refine Run.Keeps.span ?_
  refine (Host.keeps_ask fun _ _ _ _ => trivial).bind fun op _ => ?_
  refine (Host.keeps_ask fun _ _ _ _ => trivial).bind fun options _ => ?_
  refine (Run.keeps_directed options).bind fun directed _ => ?_
  refine (Host.keeps_vertexSet "vs").bind fun vertices hvertices => ?_
  refine (Host.keeps_ask fun _ _ _ _ => trivial).bind fun edges _ => ?_
  refine (Host.keeps_ask fun _ _ _ _ => trivial).bind fun weights _ => ?_
  refine (Host.keeps_vertexSet "segments").bind fun segments hsegments => ?_
  refine (Host.keeps_ask fun _ _ _ _ => trivial).bind fun belongsTo _ => ?_
  -- the graph and a partition of its nodes
  have hsize := hfits vertices segments hvertices hsegments
  refine (Run.keeps_loadGraph vertices edges weights directed).conversion.bind fun g hg => ?_
  refine (Run.keeps_loadPartition belongsTo hsize).conversion.bind fun p hp => ?_
  refine (Run.keeps_log _ _ _).bind fun _ _ => Run.keeps_pure ⟨g, p, rfl, ?_⟩
  -- the graph has the vertices for its nodes
  obtain ⟨links, hlinks, rfl⟩ := hg
  rw [Conversion.graphOf, Graph.nodeCount_ofLinks]
  exact hp

/-- The measure of a segmentation that has its resources is there or
undefined. -/
theorem Segmentation.keeps_quality {s : Segmentation} (h : s.Loaded) :
    (s.quality .builtin : Host.Action Float).Keeps (Host.Offers inputs) (fun _ => True)
      OperationError.IsExternal := by
  obtain ⟨g, p, hheld, hcovers⟩ := h
  refine (Run.keeps_ofExcept (builds_measures s.op s.options)).bind fun measure hmeasure => ?_
  have hok : s.held = .ok (g, p) := by rw [held, hheld]
  rw [hok]
  show (Run.mapError OperationError.engine (Run.lift (measure.compute p g))).Keeps _ _ _
  exact (QualityMeasure.keeps_quality hcovers hmeasure).lift.engine

/-- Step by step through the second operation. It releases its segmentation
after the measure has been asked for, so no error says that this was too
late. -/
theorem keeps_segmentationScalar (hfits : Fits inputs) :
    (Operation.segmentationScalar .builtin).Keeps (Host.Offers inputs) (fun _ => True)
      OperationError.IsExternal := by
  refine Run.Keeps.span ?_
  refine (Segmentation.keeps_load hfits).bind fun segmentation hloaded => ?_
  -- however the measure ends, the release comes next
  refine (Segmentation.keeps_quality hloaded).attempt.bind fun outcome houtcome => ?_
  have hrelease : (segmentation.release : Run Host OperationError (Bool × Segmentation)).Keeps
      (Host.Offers inputs) (fun _ => True) OperationError.IsExternal := by
    unfold Segmentation.release
    split
    · exact (Run.keeps_log _ _ _).bind fun _ _ => Run.keeps_pure trivial
    · exact Run.keeps_pure trivial
  refine hrelease.bind fun _ _ => ?_
  refine (Run.keeps_resume houtcome).bind fun value _ => ?_
  exact Host.keeps_outputScalar "sc" value

/-! ## The repository -/

namespace Repository

/-- What is run contained fails as it would have failed by itself, since it does
not panic; so there are no faults among the errors. -/
theorem keeps_execute {r : Repository} {name : String} {operation : Host.Action Unit}
    (hname : r.operations[name]? = some operation)
    (h : operation.Keeps (Host.Offers inputs) (fun _ => True) OperationError.IsExternal) :
    (r.execute name).Keeps (Host.Offers inputs) (fun _ => True) OperationError.IsExternal := by
  unfold execute
  refine Run.Keeps.span ?_
  rw [hname]
  exact h.contain.bind fun _ _ => Run.keeps_log _ _ _

/-- **Operations fail for external reasons only.** Whatever an operation is given,
on whatever stage, it ends well or its inputs, its parameters or its environment
are at fault. Segments and vertices together must not be more than the largest
index, since the vertices without a segment are numbered behind the segments. -/
theorem execute_ends (stage : Stage Host) :
    Ends (fun _ => True) (Failure.Is OperationError.IsExternal)
        ((builtin.execute Operation.edgeAttributeName).on stage).1 ∧
      ((∀ vertices segments, stage.own.accessor.vertexSet "vs" = .ok vertices →
          stage.own.accessor.vertexSet "segments" = .ok segments →
          segments.size + vertices.size ≤ Index.top) →
        Ends (fun _ => True) (Failure.Is OperationError.IsExternal)
          ((builtin.execute Operation.segmentationScalarName).on stage).1) := by
  have hattribute : builtin.operations[Operation.edgeAttributeName]? =
      some (Operation.edgeAttribute .builtin) := by
    rw [builtin, register, Std.TreeMap.getElem?_insert, if_neg (by decide), register,
      Std.TreeMap.getElem?_insert_self]
  have hscalar : builtin.operations[Operation.segmentationScalarName]? =
      some (Operation.segmentationScalar .builtin) := by
    rw [builtin, register, Std.TreeMap.getElem?_insert_self]
  refine ⟨(keeps_execute hattribute keeps_edgeAttribute stage rfl).2, fun hsize => ?_⟩
  -- what the accessor gives are its inputs
  have hfits : Fits stage.own.accessor.inputs := by
    intro vertices segments hvertices hsegments
    refine hsize vertices segments ?_ ?_
    · rw [Accessor.vertexSet, hvertices]
    · rw [Accessor.vertexSet, hsegments]
  exact (keeps_execute hscalar (keeps_segmentationScalar hfits) stage rfl).2

/-- Two vertices in one segment: all inputs and parameters are there, and the
run gets to the measure, whose value it writes. It is one of the runs that the
theorem speaks of, and it ends well. -/
theorem execute_ends_pair :
    let inputs := (((∅ : Std.TreeMap String Entity).insert "vs" (.vertexSet ⟨2⟩)).insert "es"
      (.edgeBundle ⟨#[(0, 1)]⟩)).insert "segments" (.vertexSet ⟨1⟩) |>.insert "belongsTo"
        (.edgeBundle ⟨#[(0, 0), (1, 0)]⟩)
    let params := (∅ : Std.TreeMap String String).insert "op" "Modularity"
    let stage : Stage Host := ⟨default, ⟨⟨inputs, params, ∅⟩, ∅⟩⟩
    stage.own.accessor.vertexSet "vs" = .ok ⟨2⟩ ∧
      stage.own.accessor.vertexSet "segments" = .ok ⟨1⟩ ∧
      Ends (fun _ => True) (Failure.Is OperationError.IsExternal)
        ((builtin.execute Operation.segmentationScalarName).on stage).1 ∧
      ((builtin.execute Operation.segmentationScalarName).on stage).1.isOk = true ∧
      ((builtin.execute Operation.segmentationScalarName).on stage).2.own.accessor.outputs.contains
        "sc" = true := by
  intro inputs params stage
  have hvertices : stage.own.accessor.vertexSet "vs" = .ok ⟨2⟩ := rfl
  have hsegments : stage.own.accessor.vertexSet "segments" = .ok ⟨1⟩ := rfl
  have hsize : ∀ vertices segments, stage.own.accessor.vertexSet "vs" = .ok vertices →
      stage.own.accessor.vertexSet "segments" = .ok segments →
      segments.size + vertices.size ≤ Index.top := by
    intro vertices segments hvs hseg
    obtain rfl := Except.ok.inj (hvertices.symm.trans hvs)
    obtain rfl := Except.ok.inj (hsegments.symm.trans hseg)
    decide
  have hok : ((builtin.execute Operation.segmentationScalarName).on stage).1.isOk = true := by
    decide +kernel
  have hwritten : ((builtin.execute Operation.segmentationScalarName).on
      stage).2.own.accessor.outputs.contains "sc" = true := by
    decide +kernel
  -- what the stage is matters no more
  clear_value stage
  exact ⟨hvertices, hsegments, (execute_ends stage).2 hsize, hok, hwritten⟩

/-- Triangles are counted on a pool, so a machine that refuses it is a cause. -/
example :
    let inputs := ((∅ : Std.TreeMap String Entity).insert "vs" (.vertexSet ⟨2⟩)).insert "es"
      (.edgeBundle ⟨#[(0, 1)]⟩)
    let params := (∅ : Std.TreeMap String String).insert "op" "TriangleEdgeScore"
    let scene : Scene := { (default : Scene) with machine := ⟨1, fun _ => some "no threads"⟩ }
    let stage : Stage Host := ⟨scene, ⟨⟨inputs, params, ∅⟩, ∅⟩⟩
    (match ((builtin.execute Operation.edgeAttributeName).on stage).1 with
      | .error (.error (.engine (.threadPool message))) => message == "no threads"
      | _ => false) = true := by
  decide +kernel

end Repository

end GraphMeasures
