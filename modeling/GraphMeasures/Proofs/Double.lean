import Mathlib

/-!
# GraphMeasures — counts as doubles

A count that is written as a double is a number and not below zero
(`nonnegative_ofNat`), however large it is: at worst it is infinite. So an attribute
of counts is defined everywhere (`isNaN_ofNat`), and a share of a count is a number
again (`nonnegative_mul_ofNat`).

Doubles are packed into bits after every operation, and the facts here follow them
through: what is `Nonnegative` stays so when it is packed, when it is rounded, and
when it is multiplied with a finite number.
-/

namespace GraphMeasures

open Float.Model (Format UnpackedFloat)
open Float.Model.UnpackedFloat

variable {spec : Format} {x : UnpackedFloat}

/-- A number that is not below zero, with the sign that says so. -/
inductive Nonnegative : UnpackedFloat → Prop
  | zero : Nonnegative (.zero .positive)
  | finite (m : Nat) (e : Int) (hm : 0 < m) : Nonnegative (.finite .positive m e hm)
  | infinity : Nonnegative (.infinity .positive)

/-- What is not below zero is a number. -/
theorem Nonnegative.isNaN (h : Nonnegative x) : x.isNaN = false := by
  cases h <;> rfl

/-- What is not below zero and not finite is the positive infinity, since there
is nothing else left that it could be. -/
theorem Nonnegative.eq_infinity (h : Nonnegative x) (hinfinite : x.isFinite = false) :
    x = .infinity .positive := by
  cases h with
  | zero => exact absurd hinfinite (by decide)
  | finite m e hm => exact absurd hinfinite (by simp [UnpackedFloat.isFinite])
  | infinity => rfl

/-! ## Packing -/

/-- Only the largest exponent is that of what is no number, and then only with a
mantissa. Whatever else is stored with the positive sign is not below zero. -/
theorem nonnegative_unpack_packComponents {exponent : BitVec spec.exponentBits}
    {mantissa : BitVec spec.mantissaBitsWithoutImplicit}
    (h : exponent ≠ -BitVec.ofNat spec.exponentBits 1) :
    Nonnegative (unpack spec (packComponents spec .positive exponent mantissa)) := by
  have hsign : Sign.ofBitVec Sign.positive.toBitVec = .positive := rfl
  simp only [unpack, unpackExponent_packComponents, unpackMantissa_packComponents,
    unpackSign_packComponents, hsign, if_neg h]
  split
  · split
    · exact .zero
    · exact .finite ..
  · exact .finite ..

/-- An infinity is read back as the infinity that was stored. -/
theorem nonnegative_unpack_packedInfinity :
    Nonnegative (unpack spec (packedInfinity spec .positive)) := by
  have hsign : Sign.ofBitVec Sign.positive.toBitVec = .positive := rfl
  have hinfinity : unpack spec (packedInfinity spec .positive) = .infinity .positive := by
    simp [unpack, packedInfinity, hsign]
  rw [hinfinity]
  exact .infinity

/-- The exponent of zeros and of the smallest numbers is not the largest one, since an
exponent has at least one bit. -/
theorem zero_ne_largest :
    BitVec.ofNat spec.exponentBits 0 ≠ -BitVec.ofNat spec.exponentBits 1 := by
  have hbits : spec.exponentBits ≠ 0 := Nat.pos_iff_ne_zero.1 spec.he
  simp [hbits]

/-- What is not below zero is stored as something that is not below zero. A number that
is too large becomes infinite. -/
theorem Nonnegative.unpack_pack (h : Nonnegative x) :
    Nonnegative (unpack spec (pack spec x)) := by
  cases h with
  | zero => exact nonnegative_unpack_packComponents zero_ne_largest
  | infinity => exact nonnegative_unpack_packedInfinity
  | finite m e hm =>
    unfold pack
    dsimp only
    split
    · exact nonnegative_unpack_packedInfinity
    next hsmall =>
    split
    · -- of a number with all its digits the exponent is below the largest
      refine nonnegative_unpack_packComponents fun hexponent => ?_
      have hexponent := congrArg BitVec.toNat hexponent
      rw [BitVec.toNat_ofNat, Nat.mod_eq_of_lt (by omega), BitVec.neg_one_eq_allOnes,
        BitVec.toNat_allOnes] at hexponent
      omega
    · exact nonnegative_unpack_packComponents zero_ne_largest

/-! ## Rounding -/

/-- Rounding keeps the sign. A mantissa may be rounded away, and then zero is left. -/
theorem nonnegative_roundWithAccuracy (spec : Format) (mantissa : Nat) (exponent : Int)
    (accuracy : Accuracy) :
    Nonnegative (roundWithAccuracy spec .positive mantissa exponent accuracy) := by
  simp only [roundWithAccuracy]
  split
  · exact .zero
  · exact .finite ..

/-- A positive mantissa with any exponent is rounded to something that is not
below zero. -/
theorem nonnegative_round (spec : Format) (mantissa : Nat) (exponent : Int) :
    Nonnegative (UnpackedFloat.round spec .positive mantissa exponent) := by
  simp only [UnpackedFloat.round]
  exact nonnegative_roundWithAccuracy ..

/-- A product with a finite number is not below zero either. With two infinities there
would be nothing to prove, but zero times infinity is no number. -/
theorem Nonnegative.mul_finite (h : Nonnegative x) (mantissa : Nat) (exponent : Int)
    (hpos : 0 < mantissa) :
    Nonnegative (mul spec x (.finite .positive mantissa exponent hpos)) := by
  cases h with
  | zero => exact .zero
  | finite m e hm => exact nonnegative_roundWithAccuracy ..
  | infinity => exact .infinity

/-- The same product with the finite number in front. -/
theorem Nonnegative.finite_mul (h : Nonnegative x) (mantissa : Nat) (exponent : Int)
    (hpos : 0 < mantissa) :
    Nonnegative (mul spec (.finite .positive mantissa exponent hpos) x) := by
  cases h with
  | zero => exact .zero
  | finite m e hm => exact nonnegative_roundWithAccuracy ..
  | infinity => exact .infinity

/-! ## Counts -/

/-- A count is rounded like a mantissa with the exponent zero. -/
theorem nonnegative_unpacked_ofNat (n : Nat) : Nonnegative (UnpackedFloat.ofNat spec n) := by
  unfold UnpackedFloat.ofNat UnpackedFloat.ofInt UnpackedFloat.normalize
  split
  next hnegative =>
    -- a count has no sign
    exact absurd (Int.compare_eq_lt.1 hnegative) (by omega)
  · exact .zero
  · exact nonnegative_round ..

/-- A count with many digits is read as a decimal number without an exponent.
Its mantissa is the count, shifted and rounded, and no sign is put before it. -/
theorem nonnegative_unpacked_ofScientific (n : Nat) :
    Nonnegative (UnpackedFloat.ofScientific spec n 0) := by
  rw [UnpackedFloat.ofScientific]
  split
  · exact .zero
  -- too large and too small exponents come first
  · split
    · exact .infinity
    · split
      · exact .zero
      · rw [if_pos (Int.le_refl 0)]
        exact (Nonnegative.finite ..).mul_finite ..

/-- A count is a number and not below zero, also where it has more digits than a double
keeps and where it is larger than every double. -/
theorem nonnegative_ofNat (n : Nat) : Nonnegative (Float.ofNat n).toModel.unpack := by
  show Nonnegative (Float.ofScientific n false 0).toModel.unpack
  unfold Float.ofScientific
  split
  · -- a count that is a double exactly is multiplied by one
    have hone : (Float.ofBits 0x3FF0000000000000).toModel.unpack =
        .finite .positive (2 ^ 52) (-52) (by decide) := rfl
    show Nonnegative (unpack _ (pack _ (mul Format.binary64
      (unpack _ (pack _ (UnpackedFloat.ofNat _ _)))
      (Float.ofBits 0x3FF0000000000000).toModel.unpack)))
    rw [hone]
    exact ((nonnegative_unpacked_ofNat _).unpack_pack.mul_finite ..).unpack_pack
  · exact (nonnegative_unpacked_ofScientific n).unpack_pack

/-- A count is a number. So comparing counts that were turned into doubles never
runs into something that is less than nothing and not even equal to itself. -/
theorem isNaN_ofNat (n : Nat) : (Float.ofNat n).isNaN = false :=
  (nonnegative_ofNat n).isNaN

/-- A share of a count is a number and not below zero, if the share itself is a
finite number above zero. The product may well be infinite, which rounding up
allows for. -/
theorem nonnegative_mul_ofNat {a : Float} {mantissa : Nat} {exponent : Int} {hpos : 0 < mantissa}
    (h : a.toModel.unpack = .finite .positive mantissa exponent hpos) (n : Nat) :
    Nonnegative (a * Float.ofNat n).toModel.unpack := by
  show Nonnegative (unpack .binary64 (pack .binary64
    (mul .binary64 a.toModel.unpack (Float.ofNat n).toModel.unpack)))
  rw [h]
  exact ((nonnegative_ofNat n).finite_mul ..).unpack_pack

end GraphMeasures
