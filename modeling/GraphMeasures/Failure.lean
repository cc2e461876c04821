/-!
# GraphMeasures — errors and panics

A computation that does not end with a value ends with a `Failure`: an error,
which its caller can deal with, or a panic, which unwinds. Whoever uses a
position of an array that is not there panics, and so does whoever draws an
index when there is none, or asks for an array that is longer than any can be.
-/

namespace GraphMeasures

/-- What a panic carries. -/
inductive Payload where
  | text (message : String)
  | other
deriving Repr, BEq, DecidableEq, Inhabited

def Payload.message : Payload → String
  | .text message => message
  | .other => "non-string panic payload"

/-- How a computation that does not end with a value ends. -/
inductive Failure (ε : Type) where
  | error (e : ε)
  | panic (payload : Payload)
deriving Repr, BEq, DecidableEq

namespace Failure

/-- The same failure with its error worded anew. -/
def map {ε ε' : Type} (wrap : ε' → ε) : Failure ε' → Failure ε
  | .error e => .error (wrap e)
  | .panic payload => .panic payload

/-- Somebody uses a position behind the end of an array. -/
def outOfRange {ε : Type} (size position : Nat) : Failure ε :=
  .panic (.text s!"index out of bounds: the len is {size} but the index is {position}")

/-- Somebody draws from no indexes at all. -/
def emptyRange {ε : Type} : Failure ε :=
  .panic (.text "cannot sample empty range")

/-- Somebody asks for an array that cannot have so many elements. -/
def tooLong {ε : Type} : Failure ε :=
  .panic (.text "capacity overflow")

end Failure

/-! ## Positions that must be there -/

namespace Checked

variable {ε α : Type}

def get (xs : Array α) (position : Nat) : Except (Failure ε) α :=
  match xs[position]? with
  | some x => .ok x
  | none => .error (.outOfRange xs.size position)

/-- The array with another element at a position. -/
def modify (xs : Array α) (position : Nat) (f : α → α) : Except (Failure ε) (Array α) :=
  if position < xs.size then .ok (xs.modify position f)
  else .error (.outOfRange xs.size position)

theorem get_eq_ok {xs : Array α} {position : Nat} (h : position < xs.size) :
    get (ε := ε) xs position = .ok xs[position] := by
  simp [get, h]

/-- A position that is there is written without a panic, and nothing else
changes. -/
theorem modify_eq_ok {xs : Array α} {position : Nat} (f : α → α) (h : position < xs.size) :
    modify (ε := ε) xs position f = .ok (xs.modify position f) :=
  if_pos h

end Checked

end GraphMeasures
