import GraphMeasures.Text.Utf8

/-!
# GraphMeasures — what comes from outside

A run finds two things around it that are not its inputs. A variable of the
environment is unset, or set to bytes that are a text or are not. The machine has
some number of processors, and it builds pools of worker threads or refuses to.
-/

namespace GraphMeasures

/-! ## Variables -/

inductive Variable where
  | unset
  | text (value : String)
  /-- Set to bytes that are no text; `shown` has U+FFFD for those. -/
  | unreadable (shown : String)
deriving Repr, BEq, DecidableEq, Inhabited

/-- The value of a variable that is set to some bytes. -/
def Variable.ofBytes (bytes : List UInt8) : Variable :=
  match Text.decode? bytes with
  | some value => .text value
  | none => .unreadable (Text.decodeLossy bytes)

/-! ## Machines -/

/-- A machine. It is a class so that a scene that names none is on the usual one. -/
class Machine where
  /-- The number of processors that can be used, or one where it is not known. -/
  processors : Nat
  /-- Why a pool with some number of workers cannot be built; nothing if it can. -/
  poolRefusal : Nat → Option String

/-- The usual machine builds every pool that it is asked for. -/
instance Machine.usual : Machine where
  processors := 1
  poolRefusal _ := none

instance : Inhabited Machine := ⟨.usual⟩

end GraphMeasures
