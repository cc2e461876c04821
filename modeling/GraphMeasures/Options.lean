import Std.Data.TreeMap
import GraphMeasures.Decimal.Binary64
import GraphMeasures.Decimal.Shortest
import GraphMeasures.Quantity
import GraphMeasures.Json.Reader
import GraphMeasures.RunConfig

/-!
# GraphMeasures — the options of an operation

Options are the members of a JSON object; of members with one name the last
counts, and names that nobody asks for are ignored.

Two rules tell how numbers are read. `double` takes the nearest double.
`countOr` takes whole numbers from 0 to `2 ^ 64 - 1`, exactly or not at all: a
number that is written as a double counts if its exact value is such a number.
-/

namespace GraphMeasures

/-- Why options cannot be used. -/
inductive OptionsError where
  | malformed (message : String)
  | missing (name : String)
  | wrongType (name expected : String)
  | invalidNumber (name : String) (value : Float)
deriving Repr, BEq, Inhabited

namespace OptionsError

def message : OptionsError → String
  | malformed message => s!"options are not a JSON object: {message}"
  | missing name => s!"missing option `{name}`"
  | wrongType name expected => s!"option `{name}` must be a {expected}"
  | invalidNumber name value =>
    s!"option `{name}` must be a non-negative integer, got " ++ Decimal.plain value

end OptionsError

instance : ToString OptionsError := ⟨OptionsError.message⟩

structure Options where
  entries : Std.TreeMap String Json.Value

namespace Options

def empty : Options := ⟨∅⟩

instance : Inhabited Options := ⟨empty⟩

/-- The options with the given members. -/
def ofMembers (members : List (String × Json.Value)) : Options :=
  ⟨members.foldl (fun entries (name, value) => entries.insert name value) ∅⟩

/-- What is said of a text that is not JSON. -/
def notJson : String := "<parser>"

/-- Reads options from a text, which must be a JSON object. -/
def read (text : String) : Except OptionsError Options :=
  match Json.Value.read? text with
  | some (.object members) => .ok (ofMembers members)
  | some other => .error (.malformed s!"expected an object, found {other.kind}")
  | none => .error (.malformed notJson)

def get? (o : Options) (name : String) : Option Json.Value :=
  o.entries[name]?

def contains (o : Options) (name : String) : Bool :=
  (o.get? name).isSome

/-- A numeric option, if it is given. -/
def double? (o : Options) (name : String) : Except OptionsError (Option Float) :=
  match o.get? name with
  | none => .ok none
  | some (.number n) => .ok (some n.toFloat)
  | some _ => .error (.wrongType name "number")

/-- A numeric option that must be given. -/
def double (o : Options) (name : String) : Except OptionsError Float := do
  match ← o.double? name with
  | some x => return x
  | none => throw (.missing name)

/-- A numeric option with a default. -/
def doubleOr (o : Options) (name : String) (default : Float) : Except OptionsError Float := do
  return (← o.double? name).getD default

/-- The least whole number that is too large for a count, `2 ^ 64`. -/
def countLimit : Float := 18446744073709551616.0

/-- The count that a double equals. Negative zero counts as zero. -/
def countOfDouble? (x : Float) : Option UInt64 :=
  if x.isFinite && 0.0 ≤ x && Decimal.fraction x == 0.0 && x < countLimit then some x.toUInt64
  else none

/-- The count that a number equals. Every number but a whole one that is written
without a sign is looked at as a double. -/
def countOfNumber? : Json.Number → Option UInt64
  | .natural n => some n
  | n => countOfDouble? n.toFloat

/-- An option that is a count, with a default. -/
def countOr (o : Options) (name : String) (default : UInt64) : Except OptionsError UInt64 :=
  match o.get? name with
  | none => .ok default
  | some (.number n) =>
    match countOfNumber? n with
    | some count => .ok count
    | none => .error (.invalidNumber name n.toFloat)
  | some _ => .error (.wrongType name "number")

def seed (o : Options) : Except OptionsError UInt64 :=
  o.countOr "seed" RunConfig.defaultSeed

/-- Whether the graph is directed; it is unless the option says `false`. -/
def directed (o : Options) : Except OptionsError Bool :=
  match o.get? "directed" with
  | none => .ok true
  | some (.boolean b) => .ok b
  | some _ => .error (.wrongType "directed" "boolean")

end Options

end GraphMeasures
