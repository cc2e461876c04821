import GraphMeasures.Proofs.AllOrNothing
import GraphMeasures.Proofs.Outcome

/-!
# GraphMeasures — what runs that only read come to

Most of what an operation does is to read its host and to compute. Such a run
ends in a way that does not depend on what else is on the stage: on the open
scopes, on the journal, on the thread.

* `Surroundings` — what else there is to read: the number of worker threads that
  the environment gives, and the machine.
* `Run.Answers` — on every stage with a given own state and given surroundings the
  run has one and the same outcome, and it changes neither. There is one rule for
  every operation from which runs are put together.
* `Host.writes_span` — an operation that reads and computes, and writes one output
  in the end, writes what it comes to (`Host.Writes`).
* `Segmentation.described` — the segmentation that an accessor describes.
* `Segmentation.answers_load` — loading a segmentation comes to that.
-/

namespace GraphMeasures

/-! ## Runs with one outcome -/

/-- What a run finds around it: the environment variable with the number of worker
threads, and the machine that builds pools of them. -/
structure Surroundings where
  threads : Variable
  machine : Machine

def Scene.surroundings (scene : Scene) : Surroundings :=
  ⟨scene.threads, scene.machine⟩

/-- What a run can read of its stage. -/
structure Stage.Offers {σ : Type} (own : σ) (around : Surroundings) (stage : Stage σ) : Prop where
  own_eq : stage.own = own
  around_eq : stage.scene.surroundings = around

namespace Run

variable {σ ε ε' α β : Type} {own : σ} {around : Surroundings}

/-- The run has the given outcome wherever it finds the given state and surroundings,
and it leaves them as they are. -/
def Answers (own : σ) (around : Surroundings) (outcome : Except (Failure ε) α) (run : Run σ ε α) :
    Prop :=
  ∀ stage : Stage σ, stage.Offers own around →
    (run.on stage).1 = outcome ∧ (run.on stage).2.Offers own around

/-- A value is the outcome wherever it is asked for. -/
theorem answers_pure (a : α) : Answers own around (.ok a) (pure a : Run σ ε α) :=
  fun _ h => ⟨rfl, h⟩

/-- Outcomes are put together as runs are. What comes next is asked on the stage
that the first part has left, but this offers what was offered before. -/
theorem Answers.bind {run : Run σ ε α} {rest : α → Run σ ε β} {x : Except (Failure ε) α}
    {f : α → Except (Failure ε) β} (h : Answers own around x run)
    (hrest : ∀ a, x = .ok a → Answers own around (f a) (rest a)) :
    Answers own around (x >>= f) (run >>= rest) := by
  intro stage hstage
  obtain ⟨houtcome, hafter⟩ := h stage hstage
  rw [on_bind]
  rcases hrun : run.on stage with ⟨outcome, after⟩
  rw [hrun] at houtcome hafter
  subst houtcome
  cases outcome with
  | ok a => exact hrest a rfl after hafter
  | error failure => exact ⟨rfl, hafter⟩

/-- A run that always gives the same value shows in nothing else. -/
theorem Answers.andThen {run : Run σ ε α} {rest : α → Run σ ε β} {a : α}
    {y : Except (Failure ε) β} (h : Answers own around (.ok a) run)
    (hrest : Answers own around y (rest a)) : Answers own around y (run >>= rest) := by
  refine h.bind (f := fun _ => y) fun b hb => ?_
  obtain rfl := Except.ok.inj hb
  exact hrest

/-- The outcome of a run may be handed on as it is, although something else is
done after it: a value goes through what follows, and an error or a panic passes
it by. -/
theorem Answers.handOn {run : Run σ ε α} {rest : α → Run σ ε α} {x : Except (Failure ε) α}
    (h : Answers own around x run) (hrest : ∀ a, Answers own around (.ok a) (rest a)) :
    Answers own around x (run >>= rest) := by
  have hbind := h.bind (f := .ok) fun a _ => hrest a
  cases x <;> exact hbind

/-- A part that is no run comes to its own outcome, with its errors as they are
worded in the run. -/
theorem answers_ofExcept (wrap : ε' → ε) (x : Except ε' α) :
    Answers own around (x.mapError fun e => .error (wrap e)) (ofExcept wrap x : Run σ ε α) := by
  intro stage hstage
  rw [on_ofExcept]
  exact ⟨rfl, hstage⟩

/-- What has ended on another thread comes to the outcome that it has there. If
that is a panic, it is recorded on the way; nothing of this shows in the
outcome. -/
theorem answers_ofOutcome (thread : Containment.Thread) (x : Except (Failure ε) α) :
    Answers own around x (ofOutcome thread x : Run σ ε α) := by
  intro stage hstage
  rcases x with (e | payload) | a
  · exact ⟨rfl, hstage⟩
  · exact ⟨rfl, hstage.own_eq, hstage.around_eq⟩
  · exact ⟨rfl, hstage⟩

/-- A run may look at its scene, but of that the surroundings alone are known.
If the rest comes to the same on all scenes with these surroundings, the run
comes to that. -/
theorem Answers.atScene {rest : Scene → Run σ ε α} {x : Except (Failure ε) α}
    (h : ∀ scene : Scene, scene.surroundings = around → Answers own around x (rest scene)) :
    Answers own around x (scene >>= rest) := by
  intro stage hstage
  simp only [on_bind, on_scene]
  exact h stage.scene hstage.around_eq stage hstage

/-- An outcome that was kept is the outcome. -/
theorem answers_resume (outcome : Except (Failure ε) α) :
    Answers own around outcome (resume outcome : Run σ ε α) := by
  intro stage hstage
  rw [on_resume]
  exact ⟨rfl, hstage⟩

/-- What is written to the journal has no say in the outcome, and nothing that a
run is offered is read from there. -/
theorem answers_modifyJournal (f : Journal → Journal) :
    Answers own around (.ok ()) (modifyJournal f : Run σ ε Unit) :=
  fun _ h => ⟨rfl, h.own_eq, h.around_eq⟩

/-- Events have no say in the outcome. -/
theorem answers_log (level : Journal.Level) (message : String) (fields : Journal.Fields) :
    Answers own around (.ok ()) (log level message fields : Run σ ε Unit) :=
  answers_modifyJournal _

theorem answers_record (name : String) (value : Journal.Value) :
    Answers own around (.ok ()) (record name value : Run σ ε Unit) :=
  answers_modifyJournal _

/-- A run comes to the same inside of a span, since this is opened and closed in
the journal only. -/
theorem Answers.span [ToString ε] {name : String} {fields : Journal.Fields} {body : Run σ ε α}
    {x : Except (Failure ε) α} (h : Answers own around x body) :
    Answers own around x (span name fields body) := by
  intro stage hstage
  rw [on_span]
  obtain ⟨houtcome, hafter⟩ := h _ (⟨hstage.own_eq, hstage.around_eq⟩ :
    (withJournal (·.openSpan name fields) stage).Offers own around)
  exact ⟨houtcome, hafter.own_eq, hafter.around_eq⟩

/-- Errors that are worded anew come out in their new words. -/
theorem Answers.mapError {wrap : ε' → ε} {run : Run σ ε' α} {x : Except (Failure ε') α}
    (h : Answers own around x run) :
    Answers own around (x.mapError (Failure.map wrap)) (mapError wrap run) := by
  intro stage hstage
  obtain ⟨houtcome, hafter⟩ := h stage hstage
  rw [on_mapError, houtcome]
  exact ⟨rfl, hafter⟩

/-- A run that owns nothing can be asked in the midst of another one, whatever
that one owns. -/
theorem Answers.lift {run : Run Unit ε α} {x : Except (Failure ε) α}
    (h : Answers () around x run) : Answers own around x (lift run : Run σ ε α) := by
  intro stage hstage
  rw [on_lift]
  obtain ⟨houtcome, hafter⟩ := h ⟨stage.scene, ()⟩ ⟨rfl, hstage.around_eq⟩
  exact ⟨houtcome, hstage.own_eq, hafter.around_eq⟩

/-- An attempt comes to the outcome of the run as its value. -/
theorem Answers.attempt {run : Run σ ε α} {x : Except (Failure ε) α} (h : Answers own around x run) :
    Answers own around (.ok x) (attempt run : Run σ ε' (Except (Failure ε) α)) := by
  intro stage hstage
  obtain ⟨houtcome, hafter⟩ := h stage hstage
  rw [on_attempt, houtcome]
  exact ⟨rfl, hafter⟩

end Run

/-- What only reads leaves its own state as it is, also where it fails, and
whatever it writes to the log in between. -/
theorem Run.Reads.own_eq {σ ε α : Type} {before : σ} {holds : α → Prop} {run : Run σ ε α}
    {stage : Stage σ} (h : Reads before holds run) (hstage : stage.own = before) :
    (run.on stage).2.own = before := by
  have hsettled := h stage hstage
  rcases heq : run.on stage with ⟨outcome, after⟩
  rw [heq] at hsettled
  cases outcome with
  | ok a => exact hsettled.1
  | error failure => exact hsettled

/-! ## Loading -/

/-- An answer of the accessor, as operations word it. -/
def asked {α : Type} (x : Except AccessError α) : Except (Failure OperationError) α :=
  x.mapError fun e => .error (.access e)

/-- Entities that are converted, as operations word it. -/
def converted {α : Type} (x : Except ConversionError α) : Except (Failure OperationError) α :=
  x.mapError fun e => .error (.conversion e)

/-- A question to the host is answered by its accessor, in the words of the
operation. That it was asked is written to the journal. -/
theorem Host.answers_ask {host : Host} {around : Surroundings} {α : Type} (method : Journal.Method)
    (name : String) (read : Accessor → String → Except AccessError α) :
    (ask method name read).Answers host around (asked (read host.accessor name)) := by
  refine (Run.answers_modifyJournal _).andThen ?_
  intro stage hstage
  simp only [Run.on_bind, Run.on_get, hstage.own_eq]
  exact Run.answers_ofExcept _ _ stage hstage

/-- An answer is a value exactly if the accessor has given it. -/
theorem asked_eq_ok_iff {α : Type} {x : Except AccessError α} {a : α} :
    asked x = .ok a ↔ x = .ok a :=
  mapError_eq_ok_iff

/-- A conversion succeeds exactly if it does before its errors are worded
anew. -/
theorem converted_eq_ok_iff {α : Type} {x : Except ConversionError α} {a : α} :
    converted x = .ok a ↔ x = .ok a :=
  mapError_eq_ok_iff

/-- The scope of a run shows in the tag of its workers only. Neither the seed
nor the number of threads depends on it, and so whether there is a config does
not either. -/
theorem Options.runConfig_eq (o : Options) (threads : Variable)
    (scope : Option Containment.ScopeId) :
    o.runConfig threads scope =
      (o.runConfig threads none).map fun config => { config with workerTag := scope } := by
  unfold Options.runConfig
  cases o.seed with
  | error e => rfl
  | ok seed =>
    show ((RunConfig.ofVariable seed threads).mapError _ >>= _) =
      Except.map _ ((RunConfig.ofVariable seed threads).mapError _ >>= _)
    cases RunConfig.ofVariable seed threads <;> rfl

namespace Run

variable {σ : Type} {own : σ} {around : Surroundings}

/-- What comes to the same whatever tag the workers have does not depend on the
scope. The variable with the number of threads is part of the surroundings, so
the config is known but for the tag. -/
theorem Answers.config {β : Type} {options : Options} {rest : RunConfig → Run σ OperationError β}
    {y : RunConfig → Except (Failure OperationError) β}
    (h : ∀ config tag, Answers own around (y config) (rest { config with workerTag := tag })) :
    Answers own around ((options.runConfig around.threads none).mapError .error >>= y)
      (Run.config options >>= rest) := by
  intro stage hstage
  have hthreads : stage.scene.threads = around.threads := congrArg (·.threads) hstage.around_eq
  simp only [Run.config, on_bind, on_scene, on_ofExcept, hthreads]
  rw [Options.runConfig_eq]
  cases options.runConfig around.threads none with
  | error e => exact ⟨rfl, hstage⟩
  | ok config => exact h config stage.scene.thread.scope stage hstage

/-- A computation on a pool comes to its own outcome, or to the refusal of the
pool. The machine that builds or refuses it is part of the surroundings. -/
theorem answers_onPool {α : Type} (config : RunConfig) (x : Except (Failure EngineError) α) :
    (EdgeScore.onPool config x).Answers () around
      ((config.buildPool around.machine).mapError .error >>= fun _ => x) := by
  refine Answers.atScene fun scene hscene => ?_
  have hmachine : scene.machine = around.machine := congrArg (·.machine) hscene
  rw [hmachine]
  exact (answers_ofExcept id _).bind fun _ _ => answers_ofOutcome _ x

/-- Errors of conversions are worded anew outside their span, so the journal has
them in their first words. -/
theorem Answers.worded {α : Type} {run : Run σ ConversionError α} {x : Except ConversionError α}
    (h : Answers own around (x.mapError .error) run) :
    Answers own around (converted x) (Run.mapError OperationError.conversion run) := by
  have hmapped : Answers own around
      ((x.mapError Failure.error).mapError (Failure.map OperationError.conversion))
      (Run.mapError OperationError.conversion run) := h.mapError
  cases x <;> exact hmapped

/-- Loading a graph comes to what the conversion says. -/
theorem answers_loadGraph (vertices : VertexSet) (edges : EdgeBundle) (weights : Option Attribute)
    (directed : Bool) :
    Answers own around ((Conversion.toGraph vertices edges weights directed).mapError .error)
      (loadGraph vertices edges weights directed : Run σ ConversionError (Graph Float)) := by
  refine Answers.span ?_
  refine (answers_ofExcept id _).handOn fun g => ?_
  exact (answers_log _ _ _).andThen ((answers_log _ _ _).andThen (answers_pure g))

/-- Loading a partition comes to what the conversion says. What is logged on the
way, about vertices without a segment, does not show in the outcome, and neither
does the span. -/
theorem answers_loadPartition (vertices segments : VertexSet) (belongsTo : EdgeBundle) :
    Answers own around ((Conversion.toPartition vertices segments belongsTo).mapError .error)
      (loadPartition vertices segments belongsTo : Run σ ConversionError Partition) := by
  refine Answers.span ?_
  have hplaced : (Conversion.toPartition vertices segments belongsTo).mapError Failure.error =
      (Conversion.placeVertices vertices segments belongsTo).mapError (fun e => .error (id e)) >>=
        fun state => .ok state.1 := by
    unfold Conversion.toPartition
    cases Conversion.placeVertices vertices segments belongsTo <;> rfl
  rw [hplaced]
  refine (answers_ofExcept id _).bind fun state _ => ?_
  obtain ⟨p, next⟩ := state
  by_cases hnext : segments.size < next
  · simp only [if_pos hnext]
    exact (answers_log _ _ _).andThen (answers_pure p)
  · simp only [if_neg hnext]
    exact answers_pure p

end Run

/-! ## Writing -/

namespace Host

variable {α : Type}

/-- How an operation ends that comes to a value and writes it: without a value it
fails as that did, the host may refuse the output, and else the value is written. -/
inductive Writes (before : Host) (name : String) (entity : α → Entity) :
    Except (Failure OperationError) α → Except (Failure OperationError) Unit → Host → Prop where
  | failed {failure : Failure OperationError} :
    Writes before name entity (.error failure) (.error failure) before
  | refused {a : α} {reason : String} (h : before.refusals[name]? = some reason) :
    Writes before name entity (.ok a) (.error (.error (.access (.outputRejected name reason)))) before
  | written {a : α} (h : before.refusals[name]? = none) :
    Writes before name entity (.ok a) (.ok ()) (before.wrote name (entity a))

section

variable {before after : Host} {name : String} {entity : α → Entity}
variable {x : Except (Failure OperationError) α} {outcome : Except (Failure OperationError) Unit}

/-- An operation ends well if there is a value that the host does not refuse. -/
theorem Writes.outcome_iff (h : before.Writes name entity x outcome after) :
    outcome = .ok () ↔ (∃ a, x = .ok a) ∧ before.refusals[name]? = none := by
  cases h with
  | failed => simp
  | refused hrefused => simp [hrefused]
  | written haccepted => simp [haccepted]

/-- If it ends well, the value has been written, and nothing else about the host
has changed. -/
theorem Writes.after_eq (h : before.Writes name entity x outcome after) {a : α} (hx : x = .ok a)
    (houtcome : outcome = .ok ()) : after = before.wrote name (entity a) := by
  cases h with
  | failed => exact absurd hx (by simp)
  | refused => exact absurd houtcome (by simp)
  | written =>
    obtain rfl := Except.ok.inj hx
    rfl

end

/-- The output that is there tells what was written. -/
theorem wrote_inj {host : Host} {name : String} {entity entity' : Entity}
    (h : host.wrote name entity = host.wrote name entity') : entity = entity' := by
  have hlookup := congrArg (fun host : Host => host.accessor.outputs[name]?) h
  simp only [wrote, Accessor.write, Std.TreeMap.getElem?_insert_self] at hlookup
  exact Option.some.inj hlookup

/-- A value is written if the host does not refuse it, and else nothing is. -/
theorem writes_write (name : String) (entity : α → Entity) (a : α) (stage : Stage Host) :
    stage.own.Writes name entity (.ok a) ((write name (entity a)).on stage).1
      ((write name (entity a)).on stage).2.own := by
  simp only [write, Run.on_bind, Run.on_get]
  cases hrefusal : stage.own.refusals[name]? with
  | some reason => exact .refused hrefusal
  | none => exact .written hrefusal

/-- An operation that reads and computes, and then writes one output. What it
comes to is known from what its body comes to; the span around it and the calls
to the accessor are in the journal alone. -/
theorem writes_span {body : Action α} {x : Except (Failure OperationError) α} {stage : Stage Host}
    (h : body.Answers stage.own stage.scene.surroundings x) (span : String) (method : Journal.Method)
    (name : String) (entity : α → Entity) :
    let run := Run.span span [] (body >>= fun a => noteCall method name >>= fun _ =>
      write name (entity a))
    stage.own.Writes name entity x (run.on stage).1 (run.on stage).2.own := by
  intro run
  obtain ⟨inner, hinner⟩ : ∃ inner, inner = Run.withJournal (·.openSpan span []) stage := ⟨_, rfl⟩
  have hown : inner.own = stage.own := by rw [hinner]; rfl
  have haround : inner.scene.surroundings = stage.scene.surroundings := by rw [hinner]; rfl
  simp only [run]
  rw [Run.on_span, ← hinner, Run.on_bind]
  -- the value comes first, and what is written second
  obtain ⟨hvalue, hafter⟩ := h inner ⟨hown, haround⟩
  rcases hrun : body.on inner with ⟨outcome, mid⟩
  rw [hrun] at hvalue hafter
  rw [← hvalue]
  cases outcome with
  | error failure =>
    have hsame : mid.own = stage.own := hafter.own_eq
    show stage.own.Writes name entity (.error failure) (.error failure) mid.own
    rw [hsame]
    exact .failed
  | ok a =>
    have hwrites := writes_write name entity a (Run.withJournal (·.write (.call ⟨method, name⟩)) mid)
    rw [show (Run.withJournal _ mid).own = stage.own from hafter.own_eq] at hwrites
    exact hwrites

end Host

/-! ## Segmentations -/

/-- The segmentation that an accessor describes. -/
def Segmentation.described (a : Accessor) : Except (Failure OperationError) Segmentation := do
  let op ← asked (a.text "op")
  let options ← asked (a.options "options")
  let directed ← options.directed.mapError fun e => .error (.options e)
  let vertices ← asked (a.vertexSet "vs")
  let edges ← asked (a.edgeBundle "es")
  let weights ← asked (a.doubleAttribute? "weight")
  let segments ← asked (a.vertexSet "segments")
  let belongsTo ← asked (a.edgeBundle "belongsTo")
  let g ← converted (Conversion.toGraph vertices edges weights directed)
  let p ← converted (Conversion.toPartition vertices segments belongsTo)
  return ⟨op, options, some (g, p)⟩

/-- Loading comes to the segmentation that the accessor of the host describes.
Question by question the run follows the description, so errors come in the same
order. -/
theorem Segmentation.answers_load {host : Host} {around : Surroundings} :
    load.Answers host around (described host.accessor) := by
  refine Run.Answers.span ?_
  refine (Host.answers_ask _ _ _).bind fun op _ => ?_
  refine (Host.answers_ask _ _ _).bind fun options _ => ?_
  refine (Run.answers_ofExcept _ _).bind fun directed _ => ?_
  refine (Host.answers_ask _ _ _).bind fun vertices _ => ?_
  refine (Host.answers_ask _ _ _).bind fun edges _ => ?_
  refine (Host.answers_ask _ _ _).bind fun weights _ => ?_
  refine (Host.answers_ask _ _ _).bind fun segments _ => ?_
  refine (Host.answers_ask _ _ _).bind fun belongsTo _ => ?_
  refine (Run.answers_loadGraph vertices edges weights directed).worded.bind fun g _ => ?_
  refine (Run.answers_loadPartition vertices segments belongsTo).worded.bind fun p _ => ?_
  exact (Run.answers_log _ _ _).andThen (Run.answers_pure _)

/-- On every stage loading ends as the description does and leaves the host
alone. -/
theorem Segmentation.on_load (stage : Stage Host) :
    (load.on stage).1 = described stage.own.accessor ∧ (load.on stage).2.own = stage.own := by
  obtain ⟨houtcome, hafter⟩ := answers_load stage ⟨rfl, rfl⟩
  exact ⟨houtcome, hafter.own_eq⟩

end GraphMeasures
