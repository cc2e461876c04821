import GraphMeasures.Run

/-!
# GraphMeasures — the host of an operation

An operation reads and writes through its host. The host has an accessor, may
refuse outputs by name, and every call to it stands in the journal.
-/

namespace GraphMeasures

/-- What an operation reads from and writes to. -/
structure Host where
  accessor : Accessor
  /-- The outputs that are refused, with the reasons. -/
  refusals : Std.TreeMap String String

instance : Inhabited Host := ⟨⟨.empty, ∅⟩⟩

namespace Host

variable {α : Type}

abbrev Action (α : Type) := Run Host OperationError α

/-- Writes a call into the journal. -/
def noteCall (method : Journal.Method) (name : String) : Action Unit :=
  Run.modifyJournal (·.write (.call ⟨method, name⟩))

/-- Asks the accessor for something with a name. -/
def ask (method : Journal.Method) (name : String)
    (read : Accessor → String → Except AccessError α) : Action α := do
  noteCall method name
  Run.ofExcept .access (read (← get).own.accessor name)

def vertexSet (name : String) : Action VertexSet :=
  ask .vertexSet name Accessor.vertexSet

def edgeBundle (name : String) : Action EdgeBundle :=
  ask .edgeBundle name Accessor.edgeBundle

def doubleAttribute? (name : String) : Action (Option Attribute) :=
  ask .doubleAttribute name Accessor.doubleAttribute?

def options (name : String) : Action Options :=
  ask .options name Accessor.options

def text (name : String) : Action String :=
  ask .text name Accessor.text

/-- Writes an output unless the host refuses it. -/
def write (name : String) (entity : Entity) : Action Unit := do
  match (← get).own.refusals[name]? with
  | some reason => Run.fail (.access (.outputRejected name reason))
  | none =>
    modify fun stage =>
      { stage with own := { stage.own with accessor := stage.own.accessor.write name entity } }

def output (name : String) (entity : Entity) : Action Unit := do
  noteCall .output name
  write name entity

def outputScalar (name : String) (x : Float) : Action Unit := do
  noteCall .outputScalar name
  write name (.scalar x)

end Host

/-- The settings that options ask for; inside a scope the workers of the run
are tagged with it. -/
def Options.runConfig (o : Options) (threads : Variable) (scope : Option Containment.ScopeId) :
    Except OperationError RunConfig := do
  let seed ← o.seed.mapError .options
  let config ← (RunConfig.ofVariable seed threads).mapError .engine
  return { config with workerTag := scope }

/-- The settings that options ask for in the surroundings of a run. -/
def Run.config {σ : Type} (options : Options) : Run σ OperationError RunConfig := do
  let scene ← Run.scene
  Run.ofExcept id (options.runConfig scene.threads scene.thread.scope)

end GraphMeasures
