import GraphMeasures.Run

/-!
# GraphMeasures — what runs do

What every operation on runs does to the stage it is run on. With these
equations no operation has to be unfolded to reason about a run.

* `Run.on_bind` — the second run starts on the stage that the first one leaves,
  also when the first one has changed it and failed.
* `Run.on_span` — a span changes the journal and nothing else.
* `Run.on_contain_of_panic` — the fault that a panic becomes.
* `Run.scope_contain` — afterwards the thread is in the scope it was in before.
-/

namespace GraphMeasures.Run

variable {σ ε ε' α β : Type}

/-! ## Values and errors -/

@[simp]
theorem on_pure (a : α) (stage : Stage σ) : (pure a : Run σ ε α).on stage = (.ok a, stage) :=
  rfl

/-- What comes next starts on the stage that the first part has left, and only
if that part has come to a value; an error or a panic of the first part is the
end of both, and the stage stays as it was found then. -/
@[simp]
theorem on_bind (run : Run σ ε α) (next : α → Run σ ε β) (stage : Stage σ) :
    (run >>= next).on stage =
      match run.on stage with
      | (.ok a, after) => (next a).on after
      | (.error failure, after) => (.error failure, after) := by
  show (ExceptT.bindCont next (run.on stage).1 : StateM (Stage σ) _) (run.on stage).2 = _
  rcases run.on stage with ⟨_ | _, _⟩ <;> rfl

/-- A function of the value has no say in how a run ends or in the stage it
leaves. -/
@[simp]
theorem on_map (f : α → β) (run : Run σ ε α) (stage : Stage σ) :
    (f <$> run).on stage = ((run.on stage).1.map f, (run.on stage).2) := by
  rw [map_eq_pure_bind, on_bind]
  rcases run.on stage with ⟨_ | _, _⟩ <;> rfl

@[simp]
theorem on_throw (failure : Failure ε) (stage : Stage σ) :
    (throw failure : Run σ ε α).on stage = (.error failure, stage) :=
  rfl

/-- An error leaves the stage alone, and so nothing that was written before it
is taken back. -/
@[simp]
theorem on_fail (e : ε) (stage : Stage σ) :
    (fail e : Run σ ε α).on stage = (.error (.error e), stage) :=
  rfl

/-- A part that is no run takes its outcome into the run that it is part of. Its
errors are given the words of that run. -/
@[simp]
theorem on_ofExcept (wrap : ε' → ε) (x : Except ε' α) (stage : Stage σ) :
    (ofExcept wrap x).on stage = (x.mapError fun e => Failure.error (wrap e), stage) := by
  cases x <;> rfl

/-! ## The stage -/

@[simp]
theorem on_get (stage : Stage σ) : (get : Run σ ε (Stage σ)).on stage = (.ok stage, stage) :=
  rfl

@[simp]
theorem on_modify (f : Stage σ → Stage σ) (stage : Stage σ) :
    (modify f : Run σ ε Unit).on stage = (.ok (), f stage) :=
  rfl

@[simp]
theorem on_scene (stage : Stage σ) : (scene : Run σ ε Scene).on stage = (.ok stage.scene, stage) :=
  rfl

/-- A change of the scene succeeds, and it leaves alone what is not part of the
scene. -/
@[simp]
theorem on_modifyScene (f : Scene → Scene) (stage : Stage σ) :
    (modifyScene f : Run σ ε Unit).on stage = (.ok (), { stage with scene := f stage.scene }) :=
  rfl

/-- A run that owns nothing runs on the scene alone. What it does to the scene
is kept, and what the larger run owns is given back as it was. -/
@[simp]
theorem on_lift (run : Run Unit ε α) (stage : Stage σ) :
    (lift run).on stage =
      ((run.on ⟨stage.scene, ()⟩).1, ⟨(run.on ⟨stage.scene, ()⟩).2.scene, stage.own⟩) :=
  rfl

/-! ## Stopping and going on -/

/-- Nothing can go wrong with an attempt: its value is the outcome of the run,
of whatever kind this is, on the stage that the run has left. -/
@[simp]
theorem on_attempt (run : Run σ ε α) (stage : Stage σ) :
    (attempt run : Run σ ε' _).on stage = (.ok (run.on stage).1, (run.on stage).2) :=
  rfl

/-- An outcome that was kept is what the run ends with after all. Resuming a
panic does not raise it again, so no trace is recorded. -/
@[simp]
theorem on_resume (outcome : Except (Failure ε) α) (stage : Stage σ) :
    (resume outcome).on stage = (outcome, stage) := by
  cases outcome <;> rfl

/-- Only the words of an error are changed: the stage is the same, and a value
stays a value and a panic a panic. -/
@[simp]
theorem on_mapError (wrap : ε' → ε) (run : Run σ ε' α) (stage : Stage σ) :
    (mapError wrap run).on stage =
      ((run.on stage).1.mapError (Failure.map wrap), (run.on stage).2) :=
  rfl

/-! ## Spans -/

/-- The stage with another journal. -/
def withJournal (f : Journal → Journal) (stage : Stage σ) : Stage σ :=
  { stage with scene := { stage.scene with journal := f stage.scene.journal } }

@[simp]
theorem on_modifyJournal (f : Journal → Journal) (stage : Stage σ) :
    (modifyJournal f : Run σ ε Unit).on stage = (.ok (), withJournal f stage) :=
  rfl

/-- A span ends as its body does. Around the body it changes the journal only:
the span is opened before, and afterwards an error is noted and the span
closed. -/
theorem on_span [ToString ε] (name : String) (fields : Journal.Fields) (body : Run σ ε α)
    (stage : Stage σ) :
    (span name fields body).on stage =
      ((body.on (withJournal (·.openSpan name fields) stage)).1,
       withJournal (closeSpan (body.on (withJournal (·.openSpan name fields) stage)).1)
         (body.on (withJournal (·.openSpan name fields) stage)).2) := by
  simp [span]

/-! ## Panics -/

@[simp]
theorem on_currentScope (stage : Stage σ) :
    (currentScope : Run σ ε _).on stage = (.ok stage.scene.thread.scope, stage) :=
  rfl

/-- A panic is recorded with the scopes, for the thread that the scene is on,
before it unwinds. -/
@[simp]
theorem on_raise (payload : Payload) (stage : Stage σ) :
    (raise payload : Run σ ε α).on stage =
      (.error (.panic payload), { stage with scene := { stage.scene with
        scopes := stage.scene.scopes.raise stage.scene.thread payload } }) :=
  rfl

/-- A panic that comes over from another thread was recorded for that thread.
Here it only goes on, and nothing else is recorded. -/
@[simp]
theorem on_raiseElsewhere (thread : Containment.Thread) (payload : Payload) (stage : Stage σ) :
    (raiseElsewhere thread payload : Run σ ε α).on stage =
      (.error (.panic payload), { stage with scene := { stage.scene with
        scopes := stage.scene.scopes.raise thread payload } }) :=
  rfl

/-! ## Containment -/

/-- The stage with a scope opened on its thread. -/
def opened (stage : Stage σ) : Stage σ :=
  let (_, thread, scopes) := stage.scene.scopes.enter stage.scene.thread
  { stage with scene := { stage.scene with thread, scopes } }

/-- A panic that a body ends with becomes a fault, with the name of the
operation and the words of the panic. Its trace is then taken out of the scope
that was opened for the body; if there is none, the fault says so. -/
theorem on_contain_of_panic (operation : String) {body : Run σ OperationError α}
    {stage after : Stage σ} {payload : Payload}
    (h : body.on (opened stage) = (.error (.panic payload), after)) :
    ((contain operation body).on stage).1 =
      .error (.error (.fault operation payload.message
        ((after.scene.scopes.takeTrace stage.scene.scopes.next payload.message).1.elim
          Backtrace.unavailable .captured))) := by
  simp only [contain, openScope, closeScope, on_bind, on_scene, on_modifyScene, on_attempt, on_pure]
  have hbody : body.on { stage with scene := { stage.scene with
      thread := (stage.scene.scopes.enter stage.scene.thread).2.1
      scopes := (stage.scene.scopes.enter stage.scene.thread).2.2 } } =
        (.error (.panic payload), after) := h
  rw [hbody]
  rfl

/-- Ending in whatever way, a contained run leaves the thread in the scope in
which it found it, so runs can be contained inside of each other. -/
theorem scope_contain (operation : String) (body : Run σ OperationError α) (stage : Stage σ) :
    ((contain operation body).on stage).2.scene.thread.scope = stage.scene.thread.scope := by
  simp only [contain, openScope, closeScope, on_bind, on_scene, on_modifyScene, on_attempt, on_pure]
  rcases body.on _ with ⟨(e | payload) | a, after⟩ <;> rfl

end GraphMeasures.Run
