import GraphMeasures.Quantity
import GraphMeasures.Json.Value

/-!
# GraphMeasures — the value of a JSON number

A number with neither fraction nor exponent is a whole number when it fits 64
bits. Every other number is a double, found in two roundings:

* its **significand** is the number that its digits spell, taken from the left
  for as long as it fits 64 bits (`Significand.ofDigits`), and rounded to a
  double;
* that double is multiplied or divided by the power of ten that is left
  (`scaleByTen?`).

A product beyond the largest double is refused; a quotient below the least one
is zero.
-/

namespace GraphMeasures.Json

/-- A number as it is written: its sign, the digits before and after the
point, and the exponent. -/
structure Numeral where
  minus : Bool
  whole : List Nat
  fraction : Option (List Nat)
  exponent : Option Int
deriving Repr, DecidableEq

/-- The number `digits * 10 ^ power`, while it is read. -/
structure Significand where
  digits : Nat
  power : Int
deriving Repr, DecidableEq

/-- Whether one more digit would still fit 64 bits. -/
def Significand.takes (s : Significand) (digit : Nat) : Bool :=
  s.digits * 10 + digit ≤ Index.top

/-- Reads the digits before the point. From the first that does not fit on,
every digit only raises the power. -/
def Significand.whole (s : Significand) : List Nat → Significand
  | [] => s
  | d :: rest =>
    if s.takes d then Significand.whole ⟨s.digits * 10 + d, s.power⟩ rest
    else ⟨s.digits, s.power + (d :: rest).length⟩

/-- Reads the digits after the point. From the first that does not fit on, all
are dropped. -/
def Significand.fraction (s : Significand) : List Nat → Significand
  | [] => s
  | d :: rest =>
    if s.takes d then Significand.fraction ⟨s.digits * 10 + d, s.power - 1⟩ rest
    else s

/-- The double nearest to a power of ten. -/
def powerOfTen (n : Nat) : Float :=
  Float.ofScientific 1 false n

/-- A double times a power of ten, nothing when that is infinite. The largest
power taken at once is 308, so a smaller quotient is reached in steps. -/
def scaleByTen? (x : Float) (power : Int) : Option Float :=
  if power.natAbs ≤ 308 then
    if 0 ≤ power then
      let scaled := x * powerOfTen power.natAbs
      if scaled.isInf then none else some scaled
    else some (x / powerOfTen power.natAbs)
  else if x == 0.0 then some x
  else if 0 ≤ power then none
  else scaleByTen? (x / powerOfTen 308) (power + 308)
termination_by power.natAbs
decreasing_by omega

/-- The double with the given sign and size. -/
def signed (minus : Bool) (x : Float) : Float :=
  if minus then -x else x

/-- The value of a number; nothing when it is beyond every double. -/
def Numeral.value? (n : Numeral) : Option Number :=
  let whole := Significand.whole ⟨0, 0⟩ n.whole
  if n.fraction.isNone && n.exponent.isNone && whole.power = 0 then
    if !n.minus then some (.natural (UInt64.ofNat whole.digits))
    else if 0 < whole.digits && whole.digits ≤ 0x8000000000000000 then
      some (.negative (UInt64.ofNat whole.digits))
    else some (.double (-(UInt64.ofNat whole.digits).toFloat))
  else
    let all := whole.fraction (n.fraction.getD [])
    (scaleByTen? (UInt64.ofNat all.digits).toFloat (all.power + n.exponent.getD 0)).map
      fun x => .double (signed n.minus x)

end GraphMeasures.Json
