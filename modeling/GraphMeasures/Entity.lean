/-!
# GraphMeasures — the entities that operations read and write

A caller describes a graph by entities: sets of vertices, bundles of edges
between them, attributes with a double for every edge, and single numbers. The
position of a vertex in its set and of an edge in its bundle is its identity.

Bundles and attributes are given as two columns, which must have one length.
-/

namespace GraphMeasures

/-- Why columns do not make an entity. -/
inductive EntityError where
  | lengthMismatch (entity : String) (left right : Nat)
deriving Repr, BEq, DecidableEq

def EntityError.message : EntityError → String
  | .lengthMismatch entity left right => s!"{entity} columns differ in length: {left} vs {right}"

instance : ToString EntityError := ⟨EntityError.message⟩

/-! ## Kinds of entities -/

/-- What messages call the kinds of entities. -/
inductive EntityKind where
  | vertexSet
  | edgeBundle
  | doubleAttribute
  | scalar
deriving Repr, BEq, DecidableEq

def EntityKind.name : EntityKind → String
  | .vertexSet => "vertex set"
  | .edgeBundle => "edge bundle"
  | .doubleAttribute => "double attribute"
  | .scalar => "scalar"

/-- The pairs of two columns of one length. -/
def zipColumns {α β : Type} (kind : EntityKind) (left : Array α) (right : Array β) :
    Except EntityError (Array (α × β)) :=
  if left.size = right.size then .ok (left.zip right)
  else .error (.lengthMismatch kind.name left.size right.size)

/-! ## Entities -/

/-- A set of vertices, which are only counted. -/
structure VertexSet where
  size : Nat
deriving Repr, BEq, DecidableEq, Inhabited

/-- Edges in a fixed order, each from a vertex of one set to one of another. -/
structure EdgeBundle where
  rows : Array (Nat × Nat)
deriving Repr, BEq, DecidableEq, Inhabited

namespace EdgeBundle

/-- The bundle with the given columns of sources and targets. -/
def ofColumns (sources targets : Array Nat) : Except EntityError EdgeBundle := do
  return ⟨← zipColumns .edgeBundle sources targets⟩

def size (b : EdgeBundle) : Nat :=
  b.rows.size

def sources (b : EdgeBundle) : Array Nat :=
  b.rows.map (·.1)

def targets (b : EdgeBundle) : Array Nat :=
  b.rows.map (·.2)

end EdgeBundle

/-- A double for every element of another entity, which need not be defined
everywhere: where the flag is false the double has no meaning. -/
structure Attribute where
  entries : Array (Float × Bool)
deriving Repr, BEq, Inhabited

namespace Attribute

/-- The attribute with the given columns of values and flags. -/
def ofColumns (values : Array Float) (defined : Array Bool) : Except EntityError Attribute := do
  return ⟨← zipColumns .doubleAttribute values defined⟩

/-- The attribute that is undefined exactly where a value is NaN. -/
def ofValues (values : Array Float) : Attribute :=
  ⟨values.map fun value => (value, !value.isNaN)⟩

def size (a : Attribute) : Nat :=
  a.entries.size

@[simp] theorem size_ofValues (values : Array Float) : (ofValues values).size = values.size :=
  Array.size_map

/-- An entry is the value in its place, and it is defined unless that is NaN. -/
theorem getElem?_ofValues (values : Array Float) (i : Nat) :
    (ofValues values).entries[i]? = values[i]?.map fun value => (value, !value.isNaN) :=
  Array.getElem?_map

def values (a : Attribute) : Array Float :=
  a.entries.map (·.1)

def defined (a : Attribute) : Array Bool :=
  a.entries.map (·.2)

/-- The value of an element, if it exists and is defined. -/
def get? (a : Attribute) (i : Nat) : Option Float :=
  match a.entries[i]? with
  | some (value, true) => some value
  | _ => none

end Attribute

/-- What an operation reads or writes under one name. -/
inductive Entity where
  | vertexSet (s : VertexSet)
  | edgeBundle (b : EdgeBundle)
  | doubleAttribute (a : Attribute)
  | scalar (x : Float)
deriving Repr, BEq, Inhabited

def Entity.kind : Entity → EntityKind
  | .vertexSet _ => .vertexSet
  | .edgeBundle _ => .edgeBundle
  | .doubleAttribute _ => .doubleAttribute
  | .scalar _ => .scalar

end GraphMeasures
