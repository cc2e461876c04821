import GraphMeasures.Access
import GraphMeasures.Conversion

/-!
# GraphMeasures — how operations fail

An operation fails with one of the causes of `OperationError`. A panic inside
an operation is contained and becomes a `fault`, which keeps the message of the
panic and, where it is known, the trace of the place at which it was raised.
-/

namespace GraphMeasures

/-- What a fault knows of the place at which its panic was raised. -/
inductive Backtrace where
  | empty
  /-- The trace taken by the raise with this number. -/
  | captured (raise : Nat)
  | unavailable
deriving Repr, BEq, DecidableEq, Inhabited

inductive OperationError where
  | unknownOperation (name : String)
  | access (e : AccessError)
  | options (e : OptionsError)
  | conversion (e : ConversionError)
  | unsupportedAlgorithm (family name : String)
  | ambiguousEdge (first second source target : Nat)
  | scoreLength (scores edgeIdBound : Nat)
  | resourcesReleased
  | engine (e : EngineError)
  | fault (operation message : String) (backtrace : Backtrace)
deriving Repr, BEq, Inhabited

namespace OperationError

def message : OperationError → String
  | unknownOperation name => s!"unknown operation `{name}`"
  | access e => e.message
  | options e => e.message
  | conversion e => e.message
  | unsupportedAlgorithm family name => s!"unsupported algorithm: {family} `{name}`"
  | ambiguousEdge first second source target =>
    s!"edges {first} and {second} both join ({source}, {target}); " ++
      "per-edge results would be ambiguous"
  | scoreLength scores edgeIdBound =>
    s!"engine returned {scores} scores for {edgeIdBound} edge ids"
  | resourcesReleased => "engine resources were already released"
  | engine e => "engine failure: " ++ e.message
  | fault operation message _ => s!"operation `{operation}` faulted: {message}"

/-- The code of an error, which does not change with its wording. -/
def code : OperationError → String
  | unknownOperation .. => "OPERATION_UNKNOWN"
  | access .. => "OPERATION_ACCESS"
  | options .. => "OPERATION_OPTIONS"
  | conversion .. => "OPERATION_CONVERSION"
  | unsupportedAlgorithm .. => "OPERATION_UNSUPPORTED_ALGORITHM"
  | ambiguousEdge .. => "OPERATION_AMBIGUOUS_EDGE"
  | scoreLength .. => "OPERATION_SCORE_LENGTH"
  | resourcesReleased => "OPERATION_RESOURCES_RELEASED"
  | engine .. => "OPERATION_ENGINE_FAILURE"
  | fault .. => "OPERATION_FAULT"

/-- Whether the error stems from a contained panic. -/
def isFault : OperationError → Bool
  | fault .. => true
  | _ => false

/-- The message of the error that caused this one. An error that is shown as
the one it wraps has the cause of that one. -/
def source : OperationError → Option String
  | access (.invalidParam _ e) => some e.message
  | conversion (.engine e) => some e.message
  | engine e => some e.message
  | _ => none

end OperationError

instance : ToString OperationError := ⟨OperationError.message⟩

end GraphMeasures
