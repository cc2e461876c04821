import Std.Data.TreeMap
import GraphMeasures.Failure

/-!
# GraphMeasures — scopes and the traces of panics

While an operation runs, a **scope** is open for it. A panic is recorded in the
scope that it belongs to: the innermost scope of the thread that raises it, or,
on a thread without a scope, the one that the thread is tagged with. A panic
that belongs to no open scope is passed on instead.

`Scopes` is what all threads share and `Thread` what each has for itself. A
thread changes them in four steps:

* `Scopes.enter` opens a scope with a new id inside the thread's present one;
* `Scopes.raise` is what happens where a panic is raised;
* `Scopes.takeTrace` takes the record out of a scope, and keeps the trace if
  the record has the message of the panic that has arrived;
* `Scopes.leave` closes a scope and returns to the one around it.
-/

namespace GraphMeasures

namespace Containment

/-- A scope is known by a number that no other scope has. -/
abbrev ScopeId := Nat

/-- What is recorded of a panic where it is raised. -/
structure Record where
  message : String
  /-- The number of the raise, which stands for the trace taken there. -/
  trace : Nat
deriving Repr, BEq, DecidableEq

/-- What all threads share. -/
structure Scopes where
  /-- The id of the next scope. -/
  next : ScopeId
  /-- The open scopes, each with the last panic recorded in it. -/
  slots : Std.TreeMap ScopeId (Option Record)
  raises : Nat
  /-- The panics that were passed on. -/
  forwarded : Array Payload

/-- What a thread has for itself. -/
structure Thread where
  /-- Its innermost open scope. -/
  scope : Option ScopeId
  /-- The scope that it works for. -/
  workerTag : Option ScopeId
deriving Repr, BEq, DecidableEq, Inhabited

/-- A thread that neither has nor works for a scope. -/
def Thread.plain : Thread := ⟨none, none⟩

/-- A worker thread that works for a scope, if it has a tag. -/
def Thread.worker (tag : Option ScopeId) : Thread := ⟨none, tag⟩

/-- The scope that panics on a thread belong to. -/
def Thread.owner (thread : Thread) : Option ScopeId :=
  thread.scope <|> thread.workerTag

/-- An open scope and the one around it on its thread. -/
structure Guard where
  id : ScopeId
  outer : Option ScopeId
deriving Repr, BEq, DecidableEq

namespace Scopes

def initial : Scopes := ⟨1, ∅, 0, #[]⟩

instance : Inhabited Scopes := ⟨initial⟩

def enter (s : Scopes) (thread : Thread) : Guard × Thread × Scopes :=
  (⟨s.next, thread.scope⟩, { thread with scope := some s.next },
    { s with next := s.next + 1, slots := s.slots.insert s.next none })

/-- The open scope that panics on a thread belong to. -/
def ownerSlot? (s : Scopes) (thread : Thread) : Option ScopeId :=
  thread.owner.filter s.slots.contains

/-- A panic is raised on a thread. -/
def raise (s : Scopes) (thread : Thread) (payload : Payload) : Scopes :=
  match s.ownerSlot? thread with
  | some id =>
    { s with slots := s.slots.insert id (some ⟨payload.message, s.raises⟩), raises := s.raises + 1 }
  | none => { s with forwarded := s.forwarded.push payload, raises := s.raises + 1 }

/-- Takes the record out of a scope. Its trace counts only if it was made for a
panic with the given message; a record of another panic is dropped. -/
def takeTrace (s : Scopes) (id : ScopeId) (message : String) : Option Nat × Scopes :=
  match s.slots[id]? with
  | none => (none, s)
  | some slot =>
    ((slot.filter (·.message = message)).map (·.trace), { s with slots := s.slots.insert id none })

def leave (s : Scopes) (thread : Thread) (guard : Guard) : Thread × Scopes :=
  ({ thread with scope := guard.outer }, { s with slots := s.slots.erase guard.id })

end Scopes

end Containment

end GraphMeasures
