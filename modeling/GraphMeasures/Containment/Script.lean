import GraphMeasures.Host

/-!
# GraphMeasures — scripts of panics and scopes

A `Script` is what a thread does with panics inside a scope, as data: it raises
them, catches them, opens scopes inside scopes, lets other threads panic, and
looks at the scope and the tags that it has. `Script.run` carries it out and
keeps what was seen, so the rules of containment can be stated for all
histories of a thread at once.
-/

namespace GraphMeasures.Containment

/-- One step of a script whose values are from `α`. -/
inductive Step (α : Type) where
  | finish (value : α)
  | fail (e : OperationError)
  | panic (payload : Payload)
  /-- A new thread panics, and the panic goes on here. -/
  | threadPanic (payload : Payload)
  /-- A worker panics, with this scope as its tag or without one, and the panic
  goes on here. -/
  | workerPanic (payload : Payload) (tagged : Bool)
  /-- Runs a script in a scope of its own. -/
  | nested (name : String) (body : List (Step α))
  /-- Runs a script and stops its panics. -/
  | catching (body : List (Step α))
  | seeScope
  /-- Looks at the tag of a worker, with this scope as its tag or without one. -/
  | seeWorkerTag (tagged : Bool)
  /-- Looks at the tag of the settings made from no options. -/
  | seeConfigTag

/-- The steps of a script in order. -/
abbrev Script (α : Type) := List (Step α)

/-- What a script has seen. -/
inductive Observation (α : Type) where
  | nested (result : Except OperationError α)
  | caught (result : Except (Failure OperationError) α)
  | scope (id : Option ScopeId)
  | workerTag (id : Option ScopeId)
  | configTag (id : Option ScopeId)

/-- The computations of scripts. -/
abbrev ScriptAction (α β : Type) := Run (Array (Observation α)) OperationError β

namespace Script

variable {α : Type}

/-- Keeps what was seen. -/
def see (o : Observation α) : ScriptAction α Unit :=
  modify fun stage => { stage with own := stage.own.push o }

/-- The tag of a worker of a run that is tagged with the present scope or not. -/
def workerTag (tagged : Bool) : ScriptAction α (Option ScopeId) := do
  let scope ← Run.currentScope
  return if tagged then scope else none

/-- Keeps the result of a contained script. Containment leaves no panic, but
should there be one it goes on. -/
def seeNested (outcome : Except (Failure OperationError) α) : ScriptAction α Unit :=
  match outcome with
  | .ok a => see (.nested (.ok a))
  | .error (.error e) => see (.nested (.error e))
  | .error (.panic payload) => Run.unwind payload

variable [Inhabited α]

mutual

/-- Carries out one step; the answer is the value that ends the script, if it
is the step that does. -/
def runStep : Step α → ScriptAction α (Option α)
  | .finish value => return some value
  | .fail e => Run.fail e
  | .panic payload => Run.raise payload
  | .threadPanic payload => Run.raiseElsewhere .plain payload
  | .workerPanic payload tagged => do
    Run.raiseElsewhere (.worker (← workerTag tagged)) payload
  | .nested name body => do
    seeNested (← Run.attempt (Run.contain name (run body)))
    return none
  | .catching body => do
    see (.caught (← Run.attempt (run body)))
    return none
  | .seeScope => do
    see (.scope (← Run.currentScope))
    return none
  | .seeWorkerTag tagged => do
    see (.workerTag (← workerTag tagged))
    return none
  | .seeConfigTag => do
    see (.configTag (← Run.config .empty).workerTag)
    return none

/-- Carries out a script. One that ends without a value of its own has the
default value. -/
def run : Script α → ScriptAction α α
  | [] => return default
  | step :: steps => do
    match ← runStep step with
    | some value => return value
    | none => run steps

end

end Script

end GraphMeasures.Containment
