import GraphMeasures.Algorithm
import GraphMeasures.Text.Quoted

/-!
# GraphMeasures — algorithms by name

A `Registry` builds the algorithms of one family from their name and the
options of the invocation. A name that it does not hold is refused before the
options are looked at.
-/

namespace GraphMeasures

/-- Builds an algorithm from options. -/
abbrev Factory (α : Type) := Options → Except OperationError α

/-- The algorithms of one family by their name. -/
structure Registry (α : Type) where
  family : String
  factories : Std.TreeMap String (Factory α)

namespace Registry

variable {α : Type}

def empty (family : String) : Registry α := ⟨family, ∅⟩

instance : Inhabited (Registry α) := ⟨empty ""⟩

/-- Puts a factory under a name, in place of the one that may be there. -/
def register (r : Registry α) (name : String) (factory : Factory α) : Registry α :=
  { r with factories := r.factories.insert name factory }

def contains (r : Registry α) (name : String) : Bool :=
  r.factories.contains name

/-- The names in the order of their code points. -/
def names (r : Registry α) : List String :=
  r.factories.keys

/-- Builds the algorithm under a name. -/
def build (r : Registry α) (name : String) (options : Options) : Except OperationError α :=
  match r.factories[name]? with
  | some factory => factory options
  | none => .error (.unsupportedAlgorithm r.family name)

/-- The family and the names of a registry. -/
def describe (r : Registry α) : String :=
  "AlgorithmRegistry \x7b family: " ++ Text.quoted r.family ++ ", names: [" ++
    ", ".intercalate (r.names.map Text.quoted) ++ "] \x7d"

end Registry

/-! ## The algorithms that are always there -/

abbrev EdgeScoreRegistry := Registry EdgeScore

abbrev QualityRegistry := Registry QualityMeasure

/-- Builds the forest fire score from the options `spread_prob` and
`burn_ratio`, which must both be given. -/
def forestFireFactory : Factory EdgeScore := fun options => do
  let spread ← (options.double "spread_prob").mapError .options
  let ratio ← (options.double "burn_ratio").mapError .options
  return .forestFire (← (Score.ForestFire.create spread ratio).mapError .engine)

def EdgeScoreRegistry.builtin : EdgeScoreRegistry :=
  ((Registry.empty "edge score").register "ForestFireScore" forestFireFactory
    |>.register "TriangleEdgeScore" fun _ => .ok .triangle)
    |>.register "RandomEdgeScore" fun _ => .ok .uniform

def QualityRegistry.builtin : QualityRegistry :=
  (((Registry.empty "quality measure").register "Coverage" fun _ => .ok .coverage)
    |>.register "EdgeCut" fun _ => .ok .edgeCut)
    |>.register "HubDominance" (fun _ => .ok .hubDominance)
    |>.register "Modularity" fun _ => .ok .modularity

end GraphMeasures
