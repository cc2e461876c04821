import GraphMeasures.Entity
import GraphMeasures.Options

/-!
# GraphMeasures — the inputs, parameters and outputs of an invocation

An `Accessor` holds, by name, the entities that an operation may read, the
texts that are its parameters, and the entities that it has written. Reading
an entity of another kind than the one asked for is an error, and so is reading
one that is not there, except for attributes. Options that are not there are
empty.
-/

namespace GraphMeasures

/-- Why an input, a parameter or an output cannot be used. -/
inductive AccessError where
  | missingInput (name : String)
  | wrongKind (name expected found : String)
  | missingParam (name : String)
  | invalidParam (name : String) (source : OptionsError)
  | outputRejected (name reason : String)
deriving Repr, BEq, Inhabited

namespace AccessError

def message : AccessError → String
  | missingInput name => s!"missing input `{name}`"
  | wrongKind name expected found => s!"input `{name}` is a {found}, expected a {expected}"
  | missingParam name => s!"missing parameter `{name}`"
  | invalidParam name source =>
    s!"parameter `{name}` is not a valid options map: " ++ source.message
  | outputRejected name reason => s!"output `{name}` rejected: {reason}"

end AccessError

instance : ToString AccessError := ⟨AccessError.message⟩

/-- What one invocation can read and has written. -/
structure Accessor where
  inputs : Std.TreeMap String Entity
  params : Std.TreeMap String String
  outputs : Std.TreeMap String Entity

namespace Accessor

def empty : Accessor := ⟨∅, ∅, ∅⟩

instance : Inhabited Accessor := ⟨empty⟩

/-- The error for an input of another kind. -/
def wrongKind (name : String) (expected : EntityKind) (found : Entity) : AccessError :=
  .wrongKind name expected.name found.kind.name

def vertexSet (a : Accessor) (name : String) : Except AccessError VertexSet :=
  match a.inputs[name]? with
  | some (.vertexSet s) => .ok s
  | some other => .error (wrongKind name .vertexSet other)
  | none => .error (.missingInput name)

def edgeBundle (a : Accessor) (name : String) : Except AccessError EdgeBundle :=
  match a.inputs[name]? with
  | some (.edgeBundle b) => .ok b
  | some other => .error (wrongKind name .edgeBundle other)
  | none => .error (.missingInput name)

/-- An input that must be an attribute if it is there. -/
def doubleAttribute? (a : Accessor) (name : String) : Except AccessError (Option Attribute) :=
  match a.inputs[name]? with
  | some (.doubleAttribute b) => .ok (some b)
  | some other => .error (wrongKind name .doubleAttribute other)
  | none => .ok none

def options (a : Accessor) (name : String) : Except AccessError Options :=
  match a.params[name]? with
  | some text => (Options.read text).mapError (.invalidParam name)
  | none => .ok .empty

def text (a : Accessor) (name : String) : Except AccessError String :=
  match a.params[name]? with
  | some text => .ok text
  | none => .error (.missingParam name)

def write (a : Accessor) (name : String) (entity : Entity) : Accessor :=
  { a with outputs := a.outputs.insert name entity }

end Accessor

end GraphMeasures
