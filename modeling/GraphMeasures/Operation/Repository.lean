import GraphMeasures.Operation.EdgeAttribute
import GraphMeasures.Operation.Segmentation

/-!
# GraphMeasures — operations by name

A `Repository` holds operations under names. `execute` runs one of them
contained: whatever the operation does, `execute` ends with a value or an
error.
-/

namespace GraphMeasures

structure Repository where
  operations : Std.TreeMap String (Host.Action Unit)

namespace Repository

def empty : Repository := ⟨∅⟩

instance : Inhabited Repository := ⟨empty⟩

/-- Puts an operation under a name, in place of the one that may be there. -/
def register (r : Repository) (name : String) (operation : Host.Action Unit) : Repository :=
  ⟨r.operations.insert name operation⟩

def contains (r : Repository) (name : String) : Bool :=
  r.operations.contains name

/-- The names in the order of their code points. -/
def names (r : Repository) : List String :=
  r.operations.keys

/-- The two operations that are always there. -/
def builtin : Repository :=
  (empty.register Operation.edgeAttributeName (Operation.edgeAttribute .builtin)).register
    Operation.segmentationScalarName (Operation.segmentationScalar .builtin)

/-- Runs the operation under a name. -/
def execute (r : Repository) (name : String) : Host.Action Unit :=
  Run.span "adapter.execute" [("name", .text name), ("operation", .text name)] do
    match r.operations[name]? with
    | none => Run.fail (.unknownOperation name)
    | some operation =>
      Run.contain name operation
      Run.log .info "operation completed" [("elapsed_ms", .duration)]

end Repository

end GraphMeasures
