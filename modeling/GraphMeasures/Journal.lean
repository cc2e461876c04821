import GraphMeasures.OperationError

/-!
# GraphMeasures — the journal of a run

A run leaves a timeline of what it did: the events it logged, the spans that
were closed, and the calls it made to its host. A span is a named stretch of a
run with fields; it is written when it closes, so inner spans come first.
-/

namespace GraphMeasures.Journal

/-- How much an event matters. -/
inductive Level where
  | error
  | warn
  | info
  | debug
  | trace
deriving Repr, BEq, DecidableEq

def Level.name : Level → String
  | .error => "ERROR"
  | .warn => "WARN"
  | .info => "INFO"
  | .debug => "DEBUG"
  | .trace => "TRACE"

inductive Value where
  | text (s : String)
  | count (n : Nat)
  | flag (b : Bool)
  /-- A length of time, which differs from run to run. -/
  | duration
  | backtrace (b : Backtrace)
deriving Repr, BEq, DecidableEq

abbrev Fields := List (String × Value)

structure Event where
  level : Level
  message : Option String
  fields : Fields
deriving Repr, BEq, DecidableEq

/-- A stretch of a run. -/
structure Span where
  name : String
  fields : Fields
deriving Repr, BEq, DecidableEq

/-- What an operation asks of its host. -/
inductive Method where
  | vertexSet
  | edgeBundle
  | doubleAttribute
  | options
  | text
  | output
  | outputScalar
deriving Repr, BEq, DecidableEq

def Method.name : Method → String
  | .vertexSet => "vertex_set"
  | .edgeBundle => "edge_bundle"
  | .doubleAttribute => "double_attribute_opt"
  | .options => "map_param"
  | .text => "string_param"
  | .output => "output"
  | .outputScalar => "output_scalar"

/-- A request to the host for something with a name. -/
structure Call where
  method : Method
  name : String
deriving Repr, BEq, DecidableEq

def Call.toText (call : Call) : String :=
  call.method.name ++ " " ++ call.name

inductive Entry where
  | event (e : Event)
  | span (s : Span)
  | call (c : Call)
deriving Repr, BEq, DecidableEq

end Journal

/-- The timeline of a run and the spans that are open, the innermost first. -/
structure Journal where
  entries : Array Journal.Entry
  opened : List Journal.Span
deriving Repr, BEq, DecidableEq

namespace Journal

def empty : Journal := ⟨#[], []⟩

instance : Inhabited Journal := ⟨empty⟩

def write (j : Journal) (entry : Entry) : Journal :=
  { j with entries := j.entries.push entry }

def openSpan (j : Journal) (name : String) (fields : Fields) : Journal :=
  { j with opened := ⟨name, fields⟩ :: j.opened }

/-- Sets a field of the innermost open span. -/
def record (j : Journal) (name : String) (value : Value) : Journal :=
  match j.opened with
  | [] => j
  | span :: outer =>
    { j with opened := { span with fields := span.fields.filter (·.1 ≠ name) ++ [(name, value)] } :: outer }

/-- Closes the innermost open span. -/
def closeSpan (j : Journal) : Journal :=
  match j.opened with
  | [] => j
  | span :: outer => ⟨j.entries.push (.span span), outer⟩

/-- The events in the order in which they were logged. -/
def events (j : Journal) : List Event :=
  j.entries.toList.filterMap fun
    | .event e => some e
    | _ => none

/-- The spans in the order in which they were closed. -/
def spans (j : Journal) : List Span :=
  j.entries.toList.filterMap fun
    | .span s => some s
    | _ => none

def calls (j : Journal) : List Call :=
  j.entries.toList.filterMap fun
    | .call c => some c
    | _ => none

end GraphMeasures.Journal
