import GraphMeasures.Decimal.Binary64

/-!
# GraphMeasures — the shortest decimal of a double

A decimal stands for the double nearest to it, so the decimals that read back
as one double fill an interval, from half-way to the double below to half-way
to the double above, with both ends when the mantissa is even. `shortest`
takes from the interval a multiple of the largest possible power of ten, which
is a decimal with as few digits as possible; of two such multiples the nearer
one, and the larger one when both are equally near.

Messages write a double with these digits, always in positional notation: no
exponent, no point behind a whole number (`plain`). Negative zero keeps its sign;
the values that are not finite are `NaN`, `inf` and `-inf`.
-/

namespace GraphMeasures.Decimal

/-- The number `digits * 10 ^ power`. -/
structure Scaled where
  digits : Nat
  power : Int
deriving Repr, DecidableEq

/-- Compares `a * 10 ^ i` with `b * 2 ^ j` exactly. -/
def compareScaled (a : Nat) (i : Int) (b : Nat) (j : Int) : Ordering :=
  compare (a * Nat.pow 10 i.toNat * Nat.pow 2 (-j).toNat)
    (b * Nat.pow 2 j.toNat * Nat.pow 10 (-i).toNat)

/-- Whether a decimal lies in the interval of the numbers that are read as
`b`. The ends are counted in quarters of the last binary place. -/
def Binary64.readsBack (b : Binary64) (d : Scaled) : Bool :=
  let below := compareScaled d.digits d.power (4 * b.mantissa - if b.narrowBelow then 1 else 2)
    (b.exponent - 2)
  let above := compareScaled d.digits d.power (4 * b.mantissa + 2) (b.exponent - 2)
  if b.mantissa % 2 = 0 then below.isGE && above.isLE else below.isGT && above.isLT

/-- The largest multiple of `10 ^ power` that is not above the double, counted
in that power. -/
def Binary64.floorAt (b : Binary64) (power : Int) : Nat :=
  (b.mantissa * Nat.pow 2 b.exponent.toNat * Nat.pow 10 (-power).toNat) /
    (Nat.pow 10 power.toNat * Nat.pow 2 (-b.exponent).toNat)

/-- The multiple of `10 ^ power` that stands for the double, if one of its two
neighbours among these multiples reads back. -/
def Binary64.nearestAt (b : Binary64) (power : Int) : Option Scaled :=
  let low : Scaled := ⟨b.floorAt power, power⟩
  let high : Scaled := ⟨b.floorAt power + 1, power⟩
  match b.readsBack low, b.readsBack high with
  | true, true =>
    -- the middle between the two neighbours, doubled, against the doubled value
    if (compareScaled (low.digits + high.digits) power (2 * b.mantissa) b.exponent).isGT
    then some low else some high
  | true, false => some low
  | false, true => some high
  | false, false => none

/-- The double written out in full. -/
def Binary64.exact (b : Binary64) : Scaled :=
  if 0 ≤ b.exponent then ⟨b.mantissa * Nat.pow 2 b.exponent.toNat, 0⟩
  else ⟨b.mantissa * Nat.pow 5 (-b.exponent).toNat, b.exponent⟩

/-- The powers of ten to try, from the largest: no double is above `10 ^ 309`
and seventeen digits stand for the least one. -/
def powers : List Int :=
  (List.range 660).map fun (i : Nat) => 309 - (i : Int)

/-- The shortest decimal that reads back as the double. -/
def Binary64.shortest (b : Binary64) : Scaled :=
  if b.mantissa = 0 then ⟨0, 0⟩
  else (powers.findSome? b.nearestAt).getD b.exact

/-! ## In messages -/

/-- Positional notation of `digits * 10 ^ power`. -/
def Scaled.positional (d : Scaled) : String :=
  let digits := (Nat.repr d.digits).toList
  let places := (-d.power).toNat
  if 0 ≤ d.power then String.ofList (digits ++ List.replicate d.power.toNat '0')
  else if places < digits.length then
    String.ofList (digits.take (digits.length - places) ++ '.' :: digits.drop (digits.length - places))
  else String.ofList ('0' :: '.' :: (List.replicate (places - digits.length) '0' ++ digits))

/-- A double as messages show it. -/
def plain (x : Float) : String :=
  if x.isNaN then "NaN"
  else
    let size := if x.isFinite then (Binary64.ofFloat x).shortest.positional else "inf"
    if isNegative x then "-" ++ size else size

end GraphMeasures.Decimal
