import GraphMeasures.Operation.Repository
import GraphMeasures.Run.Lemmas

/-!
# GraphMeasures — all of an output or nothing

Operations take many steps that can fail, and they run algorithms that may do
anything: give any number of scores, fail, panic. Nothing of this shows in what
is written, because only the last step writes.

* `Run.AllOrNothing` — a run that fails leaves its state as it was. There is one
  rule for every operation from which runs are put together.
* `Run.Reads` — a run that leaves its state as it was also when it does not fail.
* `contain_allOrNothing` — an operation writes one output or none.
-/

namespace GraphMeasures

/-! ## Runs that write in the end -/

namespace Run

variable {σ ε ε' α β : Type} {before : σ} {post : β → σ → Prop} {holds : α → Prop}

/-- A value and the state after it belong together, or there is a failure and the
state is what it was before. -/
def Settled (before : σ) (post : α → σ → Prop) : Except (Failure ε) α → σ → Prop
  | .ok a, after => post a after
  | .error _, after => after = before

/-- Less may be said of what is there in the end. -/
theorem Settled.mono {post post' : β → σ → Prop} {outcome : Except (Failure ε) β} {after : σ}
    (h : Settled before post outcome after) (hpost : ∀ b, post b after → post' b after) :
    Settled before post' outcome after := by
  cases outcome with
  | ok b => exact hpost b h
  | error failure => exact h

/-- Other words for a failure make it no other failure. -/
theorem Settled.mapError {outcome : Except (Failure ε') β} {after : σ}
    (h : Settled before post outcome after) (wrap : Failure ε' → Failure ε) :
    Settled before post (outcome.mapError wrap) after := by
  cases outcome with
  | ok b => exact h
  | error failure => exact h

/-- Started in a state, the run ends with a value and a state that belong
together, or it fails in one way or another and the state is what it was. -/
def AllOrNothing (before : σ) (post : α → σ → Prop) (run : Run σ ε α) : Prop :=
  ∀ stage : Stage σ, stage.own = before →
    Settled before post (run.on stage).1 (run.on stage).2.own

/-- The run leaves the state as it was, and its value has a property. -/
def Reads (before : σ) (holds : α → Prop) (run : Run σ ε α) : Prop :=
  AllOrNothing before (fun a after => after = before ∧ holds a) run

/-- What only reads may come before: if it fails, nothing has been written, and
if not, the rest starts from the state that was there. -/
theorem Reads.bind {run : Run σ ε α} {rest : α → Run σ ε β} (h : Reads before holds run)
    (hrest : ∀ a, holds a → AllOrNothing before post (rest a)) :
    AllOrNothing before post (run >>= rest) := by
  intro stage hstage
  have hrun := h stage hstage
  rw [on_bind]
  rcases heq : run.on stage with ⟨outcome, after⟩
  rw [heq] at hrun
  cases outcome with
  | ok a => exact hrest a hrun.2 after hrun.1
  | error failure => exact hrun

theorem reads_pure {a : α} (h : holds a) : Reads before holds (pure a : Run σ ε α) :=
  fun _ hstage => ⟨hstage, h⟩

theorem reads_fail (e : ε) : Reads before holds (fail e : Run σ ε α) :=
  fun _ hstage => hstage

/-- A part that is no run writes nothing; its value is known. -/
theorem reads_ofExcept (wrap : ε' → ε) (x : Except ε' α) :
    Reads before (fun a => x = .ok a) (ofExcept wrap x : Run σ ε α) := by
  cases x with
  | ok a => exact reads_pure rfl
  | error e => exact reads_fail _

/-- An outcome that was kept writes nothing when it is resumed. -/
theorem reads_resume (outcome : Except (Failure ε) α) :
    Reads before (fun a => outcome = .ok a) (resume outcome : Run σ ε α) := by
  intro stage hstage
  cases outcome with
  | ok a => exact ⟨hstage, rfl⟩
  | error failure => exact hstage

/-- Looking around writes nothing. -/
theorem reads_scene : Reads before (fun _ => True) (scene : Run σ ε Scene) :=
  fun _ hstage => ⟨hstage, trivial⟩

/-- The scene is not what is to be written all or not at all. -/
theorem reads_modifyScene (f : Scene → Scene) :
    Reads before (fun _ => True) (modifyScene f : Run σ ε Unit) :=
  fun _ hstage => ⟨hstage, trivial⟩

theorem reads_modifyJournal (f : Journal → Journal) :
    Reads before (fun _ => True) (modifyJournal f : Run σ ε Unit) :=
  reads_modifyScene _

theorem reads_log (level : Journal.Level) (message : String) (fields : Journal.Fields) :
    Reads before (fun _ => True) (log level message fields : Run σ ε Unit) :=
  reads_modifyJournal _

theorem reads_record (name : String) (value : Journal.Value) :
    Reads before (fun _ => True) (record name value : Run σ ε Unit) :=
  reads_modifyJournal _

theorem AllOrNothing.mono {post' : β → σ → Prop} {run : Run σ ε β}
    (h : AllOrNothing before post run)
    (hpost : ∀ b after, post b after → post' b after) : AllOrNothing before post' run :=
  fun stage hstage => (h stage hstage).mono fun b => hpost b _

/-- A span writes what its body writes. -/
theorem AllOrNothing.span [ToString ε] {name : String} {fields : Journal.Fields}
    {body : Run σ ε β} (h : AllOrNothing before post body) :
    AllOrNothing before post (span name fields body) := by
  intro stage hstage
  rw [on_span]
  exact h _ hstage

/-- Errors may be worded anew after all. -/
theorem AllOrNothing.mapError {wrap : ε' → ε} {run : Run σ ε' β}
    (h : AllOrNothing before post run) : AllOrNothing before post (mapError wrap run) := by
  intro stage hstage
  rw [on_mapError]
  exact (h stage hstage).mapError _

/-- Errors may be worded anew, and still nothing is written. -/
theorem Reads.mapError {wrap : ε' → ε} {run : Run σ ε' α} (h : Reads before holds run) :
    Reads before holds (mapError wrap run) :=
  AllOrNothing.mapError h

/-- Whatever a run without a state of its own does, every state stays as it
is. -/
theorem reads_lift (run : Run Unit ε α) :
    Reads before (fun a => ∃ stage, (run.on stage).1 = .ok a) (lift run : Run σ ε α) := by
  intro stage hstage
  rw [on_lift]
  cases heq : (run.on ⟨stage.scene, ()⟩).1 with
  | ok a => exact ⟨hstage, _, heq⟩
  | error failure => exact hstage

/-- What has been stopped has left nothing in the state. Its outcome is known to
be that of a run that only reads. -/
theorem Reads.attempt {run : Run σ ε α} (h : Reads before holds run) :
    Reads before (fun outcome => ∀ a, outcome = .ok a → holds a)
      (attempt run : Run σ ε' (Except (Failure ε) α)) := by
  intro stage hstage
  have hrun := h stage hstage
  rw [on_attempt]
  rcases heq : run.on stage with ⟨outcome, after⟩
  rw [heq] at hrun
  cases outcome with
  | ok a => exact ⟨hrun.1, fun _ ha => Except.ok.inj ha ▸ hrun.2⟩
  | error failure => exact ⟨hrun, fun _ ha => nomatch ha⟩

/-- Containment writes nothing of its own. A panic that it makes a fault of has
written nothing either, so the fault is an error like all others: the state is
what it was before the run, whatever was raised in it. -/
theorem AllOrNothing.contain (operation : String) {body : Run σ OperationError β}
    (h : AllOrNothing before post body) : AllOrNothing before post (contain operation body) := by
  have hopen : Reads before (fun _ => True) (openScope : Run σ OperationError Containment.Guard) :=
    reads_scene.bind fun _ _ => (reads_modifyScene _).bind fun _ _ => reads_pure trivial
  refine hopen.bind fun guard _ => ?_
  -- the state is the one the body leaves, with what closes the scope and logs the end
  intro stage hstage
  have hbody := h stage hstage
  simp only [closeScope, on_bind, on_attempt, on_scene, on_modifyScene, on_pure]
  rcases heq : body.on stage with ⟨outcome, after⟩
  rw [heq] at hbody
  rcases outcome with (e | payload) | b
  · exact hbody
  · exact hbody
  · exact hbody

end Run

/-! ## The host -/

namespace Host

variable {α : Type} {before : Host}

/-- A question leaves the host alone, and its answer is that of the accessor. -/
theorem reads_ask (method : Journal.Method) (name : String)
    (read : Accessor → String → Except AccessError α) :
    (ask method name read).Reads before fun a => read before.accessor name = .ok a := by
  refine (Run.reads_modifyJournal _).bind fun _ _ => ?_
  intro stage hstage
  subst hstage
  simp only [Run.on_bind, Run.on_get]
  exact Run.reads_ofExcept _ _ stage rfl

/-- The host with an output, new or in place of the one that may be there. -/
def wrote (host : Host) (name : String) (entity : Entity) : Host :=
  { host with accessor := host.accessor.write name entity }

/-- The host takes an output or refuses it, and then it is as it was. -/
theorem allOrNothing_write (name : String) (entity : Entity) :
    (write name entity).AllOrNothing before fun _ after => after = before.wrote name entity := by
  intro stage hstage
  subst hstage
  simp only [write, Run.on_bind, Run.on_get]
  cases stage.own.refusals[name]? with
  | none => rfl
  | some reason => rfl

/-- The same with an entity. -/
theorem allOrNothing_output (name : String) (entity : Entity) :
    (output name entity).AllOrNothing before fun _ after => after = before.wrote name entity :=
  (Run.reads_modifyJournal _).bind fun _ _ => allOrNothing_write name entity

theorem allOrNothing_outputScalar (name : String) (x : Float) :
    (outputScalar name x).AllOrNothing before
      fun _ after => after = before.wrote name (.scalar x) :=
  (Run.reads_modifyJournal _).bind fun _ _ => allOrNothing_write name (.scalar x)

end Host

/-! ## Rows and their values -/

namespace Reconciliation

/-- A row that is matched adds one value, its own. What the graph and the scores
are like does not matter for this, so it also holds of graphs that no run can
reach. -/
theorem size_matchRow {g : Graph Float} {scores : Array Float} {matching after : Matching}
    {position : Nat} {row : Nat × Nat} (h : matchRow g scores matching position row = .ok after) :
    after.values.size = matching.values.size + 1 := by
  unfold matchRow at h
  -- a row has an id that is not taken yet, or there is an error
  rcases hid : (g.edgeId row.1 row.2).mapError OperationError.engine with e | id
  · rw [hid] at h
    cases h
  · rw [hid] at h
    simp only [bind, Except.bind] at h
    split at h
    · cases h
    · obtain rfl := Except.ok.inj h
      exact Array.size_push _
    · cases h

/-- Rows that are matched add one value each, so the values are as many as the
rows when the walk began with none. -/
theorem size_matchRows {g : Graph Float} {scores : Array Float} {rows : List (Nat × Nat)}
    {matching after : Matching} {position : Nat}
    (h : matchRows g scores matching position rows = .ok after) :
    after.values.size = matching.values.size + rows.length := by
  -- every row that is passed adds one value
  induction rows generalizing matching position with
  | nil =>
    obtain rfl := Except.ok.inj h
    rfl
  | cons row rows ih =>
    rw [matchRows] at h
    rcases hrow : matchRow g scores matching position row with e | next
    · rw [hrow] at h
      cases h
    · rw [hrow] at h
      rw [ih h, size_matchRow hrow, List.length_cons]
      omega

/-- There is a value for every row. The values come in the order of the rows, so
the attribute is about the rows of the bundle and not about the edges of the
graph. -/
theorem size_toAttribute {g : Graph Float} {edges : EdgeBundle} {scores : Array Float}
    {values : Attribute} (h : toAttribute g edges scores = .ok values) :
    values.size = edges.size := by
  unfold toAttribute at h
  -- the index, the number of scores and the rows are looked at in turn
  rcases hindex : g.requireIndex.mapError OperationError.engine with e | index
  · rw [hindex] at h
    cases h
  · rw [hindex] at h
    by_cases hscores : scores.size < index.bound
    · simp only [bind, Except.bind, if_pos hscores] at h
      cases h
    · simp only [bind, Except.bind, if_neg hscores, pure, Except.pure] at h
      rcases hrows : matchRows g scores ⟨Array.replicate index.bound none, #[]⟩ 0 edges.rows.toList
        with e | matching
      · rw [hrows] at h
        cases h
      · rw [hrows] at h
        obtain rfl := Except.ok.inj h
        have hsize := size_matchRows hrows
        rw [Array.size_empty, Nat.zero_add, Array.length_toList] at hsize
        rw [Attribute.size_ofValues, hsize]
        rfl

end Reconciliation

/-! ## The operations -/

/-- The inputs describe the graph. -/
def Accessor.HasGraph (a : Accessor) (options : Options) (g : Graph Float) : Prop :=
  ∃ directed vertices edges weights, options.directed = .ok directed ∧
    a.vertexSet "vs" = .ok vertices ∧ a.edgeBundle "es" = .ok edges ∧
    a.doubleAttribute? "weight" = .ok weights ∧
    Conversion.toGraph vertices edges weights directed = .ok g

/-- The inputs describe the partition. -/
def Accessor.HasPartition (a : Accessor) (p : Partition) : Prop :=
  ∃ vertices segments belongsTo, a.vertexSet "vs" = .ok vertices ∧
    a.vertexSet "segments" = .ok segments ∧ a.edgeBundle "belongsTo" = .ok belongsTo ∧
    Conversion.toPartition vertices segments belongsTo = .ok p

namespace Run

variable {σ : Type} {before : σ}

/-- Reading the settings of a run writes nothing. -/
theorem reads_config (options : Options) :
    Reads before (fun _ => True) (config options : Run σ OperationError RunConfig) :=
  reads_scene.bind fun _ _ => (reads_ofExcept _ _).mono fun _ _ h => ⟨h.1, trivial⟩

/-- Loading a graph writes nothing, and the graph is what the conversion
makes. -/
theorem reads_loadGraph (vertices : VertexSet) (edges : EdgeBundle) (weights : Option Attribute)
    (directed : Bool) :
    Reads before (fun g => Conversion.toGraph vertices edges weights directed = .ok g)
      (loadGraph vertices edges weights directed : Run σ ConversionError (Graph Float)) := by
  refine AllOrNothing.span ?_
  refine (reads_ofExcept _ _).bind fun g hg => ?_
  refine (reads_log _ _ _).bind fun _ _ => ?_
  exact (reads_log _ _ _).bind fun _ _ => reads_pure hg

/-- Loading a partition writes nothing but entries of the log, and what it loads
is what the conversion makes of its arguments. -/
theorem reads_loadPartition (vertices segments : VertexSet) (belongsTo : EdgeBundle) :
    Reads before (fun p => Conversion.toPartition vertices segments belongsTo = .ok p)
      (loadPartition vertices segments belongsTo : Run σ ConversionError Partition) := by
  refine AllOrNothing.span ?_
  refine (reads_ofExcept _ _).bind fun placed hplaced => ?_
  obtain ⟨p, next⟩ := placed
  have hp : Conversion.toPartition vertices segments belongsTo = .ok p := by
    rw [Conversion.toPartition, hplaced]
    rfl
  by_cases hnext : segments.size < next
  · simp only [if_pos hnext]
    exact (reads_log _ _ _).bind fun _ _ => reads_pure hp
  · simp only [if_neg hnext]
    exact reads_pure hp

/-- Scores are given to rows without writing anything; there is one for each. -/
theorem reads_reconcile (g : Graph Float) (edges : EdgeBundle) (scores : Array Float) :
    Reads before (fun values => values.size = edges.size)
      (reconcile g edges scores : Run σ OperationError Attribute) :=
  AllOrNothing.span <| (reads_ofExcept _ _).mono fun _ _ h =>
    ⟨h.1, Reconciliation.size_toAttribute h.2⟩

end Run

namespace Operation

variable {before : Host}

/-- The last step of the operation writes one value for every row. Whatever
comes before only reads, also the algorithm, which knows nothing of the host. So
an error, wherever it comes from, finds nothing written, and the last step
itself is refused or done. -/
theorem allOrNothing_edgeAttribute (registry : EdgeScoreRegistry) :
    (edgeAttribute registry).AllOrNothing before fun _ after =>
      ∃ edges values, before.accessor.edgeBundle "es" = .ok edges ∧ values.size = edges.size ∧
        after = before.wrote "attr" (.doubleAttribute values) := by
  refine Run.AllOrNothing.span ?_
  refine (Host.reads_ask _ _ _).bind fun op _ => ?_
  refine (Run.reads_record _ _).bind fun _ _ => ?_
  refine (Host.reads_ask _ _ _).bind fun options _ => ?_
  refine (Run.reads_ofExcept _ _).bind fun score _ => ?_
  refine (Run.reads_config options).bind fun config _ => ?_
  refine (Run.reads_record _ _).bind fun _ _ => ?_
  refine (Host.reads_ask _ _ _).bind fun vertices _ => ?_
  refine (Host.reads_ask _ _ _).bind fun edges hedges => ?_
  refine (Host.reads_ask _ _ _).bind fun weights _ => ?_
  refine (Run.reads_ofExcept _ _).bind fun directed _ => ?_
  refine (Run.reads_loadGraph vertices edges weights directed).mapError.bind fun g _ => ?_
  -- whatever the algorithm does, it has no part in the host
  refine (Run.reads_lift (score.compute g config)).mapError.bind fun scores _ => ?_
  refine (Run.reads_reconcile g edges scores).bind fun values hvalues => ?_
  refine (Host.allOrNothing_output _ _).mono fun _ after hafter => ?_
  exact ⟨edges, values, hedges, hvalues, hafter⟩

end Operation

namespace Segmentation

variable {before : Host}

/-- The segmentation is the one that the inputs and parameters describe. -/
structure LoadedFrom (a : Accessor) (s : Segmentation) : Prop where
  op : a.text "op" = .ok s.op
  options : a.options "options" = .ok s.options
  resources : ∃ g p, s.resources = some (g, p) ∧ a.HasGraph s.options g ∧ a.HasPartition p

/-- Loading a segmentation writes nothing, and what it loads was put together
from the inputs and parameters that were there before (`LoadedFrom`). Every
question is one step, and the answers are named in the order in which they are
asked for. -/
theorem reads_load : load.Reads before (LoadedFrom before.accessor) := by
  -- one fact for each thing that is asked for, in the order of the questions
  refine Run.AllOrNothing.span ?_
  refine (Host.reads_ask _ _ _).bind fun op hop => ?_
  refine (Host.reads_ask _ _ _).bind fun options hoptions => ?_
  refine (Run.reads_ofExcept _ _).bind fun directed hdirected => ?_
  refine (Host.reads_ask _ _ _).bind fun vertices hvertices => ?_
  refine (Host.reads_ask _ _ _).bind fun edges hedges => ?_
  refine (Host.reads_ask _ _ _).bind fun weights hweights => ?_
  refine (Host.reads_ask _ _ _).bind fun segments hsegments => ?_
  refine (Host.reads_ask _ _ _).bind fun belongsTo hbelongsTo => ?_
  refine (Run.reads_loadGraph vertices edges weights directed).mapError.bind fun g hg => ?_
  refine (Run.reads_loadPartition vertices segments belongsTo).mapError.bind fun p hp => ?_
  refine (Run.reads_log _ _ _).bind fun _ _ => Run.reads_pure ⟨hop, hoptions, g, p, rfl, ?_, ?_⟩
  · exact ⟨directed, vertices, edges, weights, hdirected, hvertices, hedges, hweights, hg⟩
  · exact ⟨vertices, segments, belongsTo, hvertices, hsegments, hbelongsTo, hp⟩

/-- What is held is there until it is released. -/
theorem held_eq_ok_iff {s : Segmentation} {held : Graph Float × Partition} :
    s.held = .ok held ↔ s.resources = some held := by
  unfold Segmentation.held
  cases s.resources <;> simp

/-- The quality is what the measure gives for the graph and the partition. It is
asked for on a stage of its own, on which there is no host to write to. -/
theorem reads_quality (s : Segmentation) (registry : QualityRegistry) :
    (s.quality registry : Host.Action Float).Reads before fun x =>
      ∃ measure g p stage, registry.build s.op s.options = .ok measure ∧
        s.resources = some (g, p) ∧ ((measure.compute p g).on stage).1 = .ok x := by
  refine (Run.reads_ofExcept _ _).bind fun measure hmeasure => ?_
  refine (Run.reads_ofExcept _ _).bind fun held hheld => ?_
  obtain ⟨g, p⟩ := held
  refine (Run.reads_lift (measure.compute p g)).mapError.mono fun x after hx => ?_
  obtain ⟨hafter, stage, hvalue⟩ := hx
  exact ⟨hafter, measure, g, p, stage, hmeasure, held_eq_ok_iff.1 hheld, hvalue⟩

/-- Releasing a segmentation shows in the journal only. -/
theorem reads_release (s : Segmentation) :
    (s.release : Host.Action (Bool × Segmentation)).Reads before fun _ => True := by
  unfold release
  split
  · exact (Run.reads_log _ _ _).bind fun _ _ => Run.reads_pure trivial
  · exact Run.reads_pure trivial

end Segmentation

namespace Operation

variable {before : Host}

/-- The last step of the operation writes what the measure gave. The release
comes before it, and only reads. What was written is the value of the measure
that the registry has built, on the graph and the partition that the inputs
make. -/
theorem allOrNothing_segmentationScalar (registry : QualityRegistry) :
    (segmentationScalar registry).AllOrNothing before fun _ after =>
      ∃ op options measure g p stage x, before.accessor.text "op" = .ok op ∧
        before.accessor.options "options" = .ok options ∧ registry.build op options = .ok measure ∧
        before.accessor.HasGraph options g ∧ before.accessor.HasPartition p ∧
        ((measure.compute p g).on stage).1 = .ok x ∧ after = before.wrote "sc" (.scalar x) := by
  refine Run.AllOrNothing.span ?_
  refine Segmentation.reads_load.bind fun s hs => ?_
  -- the measure may fail or panic, which shows only after the release
  refine (s.reads_quality registry).attempt.bind fun outcome houtcome => ?_
  refine s.reads_release.bind fun _ _ => ?_
  refine (Run.reads_resume outcome).bind fun x hx => ?_
  refine (Host.allOrNothing_outputScalar _ _).mono fun _ after hafter => ?_
  obtain ⟨measure, g, p, stage, hmeasure, hheld, hvalue⟩ := houtcome x hx
  -- the measure was given what had been loaded
  obtain ⟨g', p', hloaded, hg, hp⟩ := hs.resources
  obtain ⟨rfl, rfl⟩ := Prod.mk.inj (Option.some.inj (hloaded.symm.trans hheld))
  exact ⟨s.op, s.options, measure, g', p', stage, x, hs.op, hs.options, hmeasure, hg, hp, hvalue,
    hafter⟩

/-- **Operations write all or nothing.** Whatever the algorithms of a registry do,
an operation that ends with an error, be it the fault of a panic, leaves its host
as it was; and one that ends well adds one output to it, which is a value for
every row or the number that the measure gave for the graph and the partition in
the inputs, and changes nothing else. -/
theorem contain_allOrNothing (operation : String) (stage : Stage Host) :
    (∀ registry : EdgeScoreRegistry,
      match (Run.contain operation (edgeAttribute registry)).on stage with
      | (.error _, after) => after.own = stage.own
      | (.ok _, after) => ∃ edges values, stage.own.accessor.edgeBundle "es" = .ok edges ∧
          values.size = edges.size ∧
          after.own = stage.own.wrote "attr" (.doubleAttribute values)) ∧
    ∀ registry : QualityRegistry,
      match (Run.contain operation (segmentationScalar registry)).on stage with
      | (.error _, after) => after.own = stage.own
      | (.ok _, after) => ∃ op options measure g p scene x,
          stage.own.accessor.text "op" = .ok op ∧
          stage.own.accessor.options "options" = .ok options ∧
          registry.build op options = .ok measure ∧
          stage.own.accessor.HasGraph options g ∧ stage.own.accessor.HasPartition p ∧
          ((measure.compute p g).on scene).1 = .ok x ∧
          after.own = stage.own.wrote "sc" (.scalar x) := by
  refine ⟨fun registry => ?_, fun registry => ?_⟩
  · -- containment keeps what is known of the writes of the body
    have hsettled := (allOrNothing_edgeAttribute registry).contain operation stage rfl
    rcases heq : (Run.contain operation (edgeAttribute registry)).on stage with ⟨outcome, after⟩
    rw [heq] at hsettled
    cases outcome with
    | ok value => exact hsettled
    | error failure => exact hsettled
  · have hsettled := (allOrNothing_segmentationScalar registry).contain operation stage rfl
    rcases heq : (Run.contain operation (segmentationScalar registry)).on stage with
      ⟨outcome, after⟩
    rw [heq] at hsettled
    cases outcome with
    | ok value => exact hsettled
    | error failure => exact hsettled

end Operation

end GraphMeasures
