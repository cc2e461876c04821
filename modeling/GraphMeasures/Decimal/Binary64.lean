/-!
# GraphMeasures — the parts of a double

A finite double is, but for its sign, `mantissa * 2 ^ exponent` with two whole
numbers. `Binary64.ofFloat` reads them off the bits; the shortest decimal of a
double is decided on them with natural numbers.

From `2 ^ 53` on every double is a whole number. The digits before the point of a
smaller one fit a word, so `truncated` takes them through a word; `fraction` is what
this leaves behind.
-/

namespace GraphMeasures.Decimal

/-! ## Mantissa and exponent -/

/-- The size of a finite double: `mantissa * 2 ^ exponent`. -/
structure Binary64 where
  mantissa : Nat
  exponent : Int
  /-- The double just below lies half as far away as the double just above. -/
  narrowBelow : Bool
deriving Repr, DecidableEq

/-- Reads mantissa and exponent off the bits. Infinities and NaN have no such
value; they are to be tested for first. -/
def Binary64.ofFloat (x : Float) : Binary64 :=
  let power := ((x.toBits >>> 52) &&& 0x7FF).toNat
  let fraction := (x.toBits &&& 0xFFFFFFFFFFFFF).toNat
  if power = 0 then ⟨fraction, -1074, false⟩
  else ⟨0x10000000000000 + fraction, (power : Int) - 1075, fraction = 0 && power > 1⟩

/-- Whether the sign bit is set; -0.0 and negative NaNs count. -/
def isNegative (x : Float) : Bool :=
  x.toBits >>> 63 = 1

/-! ## Behind the point -/

/-- From this number, `2 ^ 53`, on no double has digits behind its point. -/
def wholeFrom : Float := 9007199254740992.0

/-- The double without the digits behind its point, with its sign. What is not a
number, and what is infinite, stays as it is. -/
def truncated (x : Float) : Float :=
  if 0.0 < x && x < wholeFrom then x.toUInt64.toFloat
  else if -wholeFrom < x && x < 0.0 then -(-x).toUInt64.toFloat
  else x

/-- The digits behind the point, with the sign of the double. -/
def fraction (x : Float) : Float :=
  x - truncated x

end GraphMeasures.Decimal
