import GraphMeasures.Decimal.Binary64

/-!
# GraphMeasures — counts and weights

Nodes, subsets, edge ids and counts are natural numbers below `2 ^ 64`. Most
operations cannot leave that range, because what they count is held in memory.
The few that take a number from a caller and go one further say here what
happens at the top: they stay there (`Index.next`), or start again
(`Index.wrapNext`). Two more make an index of a double (`Index.ofFloat`,
`Index.aboveFloat`).

Weights are doubles. The functions that only add, multiply and compare them
are written for any `Scalar`, so that they can also be read in exact
arithmetic. The order of every sum is part of their definition: doubles do not
add associatively.
-/

namespace GraphMeasures

/-! ## Indexes and counts -/

namespace Index

/-- The number of indexes, `2 ^ 64`. -/
def count : Nat := 0x10000000000000000

def top : Nat := count - 1

/-- One further, staying at the top. -/
def next (n : Nat) : Nat :=
  min (n + 1) top

/-- One further, starting again at zero behind the top. -/
def wrapNext (n : Nat) : Nat :=
  (n + 1) % count

/-- The index nearest to a double from below: zero for what is not positive,
the top for what is beyond it. -/
def ofFloat (x : Float) : Nat :=
  x.toUInt64.toNat

/-- The index nearest to a double from above: zero for what is not positive, the
top for what is beyond it. -/
def aboveFloat (x : Float) : Nat :=
  if 0.0 < x && !(Decimal.fraction x == 0.0) then next (ofFloat x) else ofFloat x

end Index

/-! ## Weights -/

/-- What the weights of a graph have to support. -/
class Scalar (α : Type) extends Add α, Sub α, Mul α, Div α where
  /-- The number that stands for a count. -/
  ofCount : Nat → α
  /-- The sum of no numbers: a zero that changes no number it is added to. -/
  emptySum : α
  isZero : α → Bool

/-- Of the two zeros of the doubles only the negative one changes no number it
is added to, itself included. -/
instance : Scalar Float where
  ofCount := Float.ofNat
  emptySum := -0.0
  isZero x := x == 0.0

namespace Scalar

variable {α : Type} [Scalar α]

/-- The number zero; for doubles the positive one. -/
def zero : α := ofCount 0

def one : α := ofCount 1

/-- The sum of a list, added from the left. -/
def sum (xs : List α) : α :=
  xs.foldl (· + ·) emptySum

end Scalar

end GraphMeasures
