import GraphMeasures.Containment.Scopes
import GraphMeasures.Environment
import GraphMeasures.Journal

/-!
# GraphMeasures — running computations

A `Run σ ε α` is a computation that ends with a value, with an error from `ε`
or with a panic that unwinds. It keeps a journal, takes part in the containment
of panics, and may have a state `σ` of its own. What it has done so far stays
done when it fails.

* `Run.span` puts a computation into a span of the journal, which is closed
  however the computation ends.
* `Run.attempt` stops errors and panics.
* `Run.contain` runs an operation in a scope and turns a panic into a fault.
-/

namespace GraphMeasures

open Containment (Guard Thread Scopes ScopeId)

/-- The surroundings of a computation. -/
structure Scene where
  /-- The thread that it runs on. -/
  thread : Thread
  scopes : Scopes
  journal : Journal
  /-- The environment variable with the number of worker threads. -/
  threads : Variable
  /-- Where pools of worker threads are built. -/
  [machine : Machine]
deriving Inhabited

/-- The surroundings of a computation and its own state. -/
structure Stage (σ : Type) where
  scene : Scene
  own : σ
deriving Inhabited

/-- A computation that can change its stage and can fail. -/
abbrev Run (σ ε α : Type) := ExceptT (Failure ε) (StateM (Stage σ)) α

namespace Run

variable {σ ε ε' α : Type}

/-- The outcome of a computation and the stage it leaves. -/
def on (run : Run σ ε α) (stage : Stage σ) : Except (Failure ε) α × Stage σ :=
  (ExceptT.run run).run stage

/-- The computation with the given outcomes. -/
def ofFunction (f : Stage σ → Except (Failure ε) α × Stage σ) : Run σ ε α :=
  ExceptT.mk f

def fail (e : ε) : Run σ ε α :=
  throw (.error e)

/-- A value, or an error as another computation words it. -/
def ofExcept (wrap : ε' → ε) : Except ε' α → Run σ ε α
  | .ok a => pure a
  | .error e => fail (wrap e)

def scene : Run σ ε Scene := do
  return (← get).scene

def modifyScene (f : Scene → Scene) : Run σ ε Unit :=
  modify fun stage => { stage with scene := f stage.scene }

/-- Words errors anew. -/
def mapError (wrap : ε' → ε) (run : Run σ ε' α) : Run σ ε α :=
  ofFunction fun stage =>
    let (outcome, after) := run.on stage
    (outcome.mapError (Failure.map wrap), after)

/-- Runs a computation that has no state of its own. -/
def lift (run : Run Unit ε α) : Run σ ε α :=
  ofFunction fun stage =>
    let (outcome, after) := run.on ⟨stage.scene, ()⟩
    (outcome, ⟨after.scene, stage.own⟩)

/-- Runs a computation to its end and stops errors and panics. -/
def attempt (run : Run σ ε α) : Run σ ε' (Except (Failure ε) α) :=
  ofFunction fun stage =>
    let (outcome, stage) := run.on stage
    (.ok outcome, stage)

/-- Ends as another computation has ended. -/
def resume (outcome : Except (Failure ε) α) : Run σ ε α :=
  match outcome with
  | .ok a => pure a
  | .error failure => throw failure

/-! ## The journal -/

def modifyJournal (f : Journal → Journal) : Run σ ε Unit :=
  modifyScene fun scene => { scene with journal := f scene.journal }

def log (level : Journal.Level) (message : String) (fields : Journal.Fields) : Run σ ε Unit :=
  modifyJournal (·.write (.event ⟨level, some message, fields⟩))

/-- Sets a field of the span that the computation is in. -/
def record (name : String) (value : Journal.Value) : Run σ ε Unit :=
  modifyJournal (·.record name value)

/-- Closes the span of a computation; an error is logged before that. -/
def closeSpan [ToString ε] (outcome : Except (Failure ε) α) (journal : Journal) : Journal :=
  match outcome with
  | .error (.error e) =>
    (journal.write (.event ⟨.error, none, [("error", .text (toString e))]⟩)).closeSpan
  | _ => journal.closeSpan

/-- Puts a computation into a span. -/
def span [ToString ε] (name : String) (fields : Journal.Fields) (body : Run σ ε α) : Run σ ε α := do
  modifyJournal (·.openSpan name fields)
  let outcome ← attempt body
  modifyJournal (closeSpan outcome)
  resume outcome

/-! ## Panics -/

/-- A panic is raised on some thread; nothing unwinds yet. -/
def raiseOn (thread : Thread) (payload : Payload) : Run σ ε Unit :=
  modifyScene fun scene => { scene with scopes := scene.scopes.raise thread payload }

/-- A panic arrives here without being raised here. -/
def unwind (payload : Payload) : Run σ ε α :=
  throw (.panic payload)

def raise (payload : Payload) : Run σ ε α := do
  raiseOn (← scene).thread payload
  unwind payload

/-- Another thread panics, and the panic goes on here. -/
def raiseElsewhere (thread : Thread) (payload : Payload) : Run σ ε α := do
  raiseOn thread payload
  unwind payload

/-- Ends as a computation on some thread has ended: a panic is raised there and
goes on here. -/
def ofOutcome (thread : Thread) (outcome : Except (Failure ε) α) : Run σ ε α :=
  match outcome with
  | .ok a => pure a
  | .error (.error e) => fail e
  | .error (.panic payload) => raiseElsewhere thread payload

/-- The innermost open scope. -/
def currentScope : Run σ ε (Option ScopeId) := do
  return (← scene).thread.scope

/-! ## Containment -/

/-- What is logged of an operation that has ended with an error. -/
def failureEvent (operation : String) (e : OperationError) : Journal.Event :=
  ⟨.warn, some "operation failed",
    [("operation", .text operation), ("code", .text e.code), ("error", .text e.message)]⟩

/-- What is logged of an operation that has ended with a panic. -/
def faultEvent (operation message : String) (backtrace : Backtrace) : Journal.Event :=
  ⟨.error, some "operation faulted; panic contained",
    [("operation", .text operation), ("code", .text "OPERATION_FAULT"), ("panic", .text message),
     ("backtrace", .backtrace backtrace)]⟩

/-- Logs how an operation has ended, outside its scope, and words a panic with
its trace as a fault. -/
def settle (operation : String) (outcome : Except (Failure OperationError) α)
    (trace : Option Nat) : Run σ OperationError α :=
  match outcome with
  | .ok a => pure a
  | .error (.error e) => do
    modifyJournal (·.write (.event (failureEvent operation e)))
    fail e
  | .error (.panic payload) => do
    let backtrace := trace.elim Backtrace.unavailable .captured
    modifyJournal (·.write (.event (faultEvent operation payload.message backtrace)))
    fail (.fault operation payload.message backtrace)

/-- The trace of the panic that a computation has ended with, taken out of a
scope. -/
def takeTrace (id : ScopeId) (outcome : Except (Failure ε) α) (scopes : Scopes) :
    Option Nat × Scopes :=
  match outcome with
  | .error (.panic payload) => scopes.takeTrace id payload.message
  | _ => (none, scopes)

def openScope : Run σ ε Guard := do
  let before ← scene
  let (guard, thread, scopes) := before.scopes.enter before.thread
  modifyScene fun scene => { scene with thread, scopes }
  return guard

/-- Closes a scope. If the computation in it has ended with a panic, the answer
is the trace of that panic, where it is known. -/
def closeScope (guard : Guard) (outcome : Except (Failure ε) α) : Run σ ε (Option Nat) := do
  let before ← scene
  let (trace, scopes) := takeTrace guard.id outcome before.scopes
  let (thread, scopes) := scopes.leave before.thread guard
  modifyScene fun scene => { scene with thread, scopes }
  return trace

/-- Runs an operation in a scope of its own. -/
def contain (operation : String) (body : Run σ OperationError α) : Run σ OperationError α := do
  let guard ← openScope
  -- the scope is closed however the body ends, and before the end is logged
  let outcome ← attempt body
  let trace ← closeScope guard outcome
  settle operation outcome trace

end Run

end GraphMeasures
