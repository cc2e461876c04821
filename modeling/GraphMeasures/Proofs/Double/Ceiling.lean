import GraphMeasures.Proofs.Double
import GraphMeasures.Proofs.Double.Whole
import GraphMeasures.Proofs.Exact

/-!
# GraphMeasures — doubles rounded up to counts

A share of a count is a double, and how many things it is of is the next whole number
that is not below it (`Index.aboveFloat`). The double has a fraction or it has none,
which is told without error, so the number is the ceiling of what the double exactly
is, unless that is beyond the largest index (`Exactly.aboveFloat`).

A finite double is exactly its `exactValue` (`exactly_exactValue`), and a double that
is not finite but is not below zero either is infinite (`aboveFloat_eq`).
-/

namespace GraphMeasures.Double

open Float.Model (Format UnpackedFloat)
open Float.Model.UnpackedFloat

variable {q : ℚ} {a : Float}

/-! ## Exact values -/

/-- A double is exactly one number, and this is how it is read off the double:
the mantissa with its sign, times the power of two of the exponent. -/
theorem Exactly.exactValue_eq (h : Exactly a q) : exactValue a = q := by
  unfold Exactly at h
  unfold exactValue
  generalize a.toModel.unpack = x at h
  obtain s | @⟨s, m, e, -, -, -⟩ := h
  · rfl
  · cases s with
    | negative => rw [apply_negative]
    | positive => rw [apply_positive]

/-- A finite double is exactly its `exactValue`, so whatever is known of exact
values can be said about finite doubles without naming any. -/
theorem exactly_exactValue (h : a.isFinite = true) : Exactly a (exactValue a) := by
  obtain ⟨q, hq⟩ := exists_exactly h
  rwa [hq.exactValue_eq]

/-- A positive finite double is unpacked with the positive sign and a mantissa
that is not zero; zero and the negative doubles have no positive value. -/
theorem Exactly.unpack_of_pos (h : Exactly a q) (hpos : 0 < q) :
    ∃ m e, ∃ hm : 0 < m, a.toModel.unpack = .finite .positive m e hm := by
  unfold Exactly at h
  generalize a.toModel.unpack = x at h
  obtain s | @⟨s, m, e, hm, -, -⟩ := h
  · exact absurd hpos (lt_irrefl 0)
  · cases s with
    | positive => exact ⟨m, e, hm, rfl⟩
    | negative =>
      have hnonneg : (0 : ℚ) ≤ m * 2 ^ e := mul_nonneg m.cast_nonneg (two_zpow_pos e).le
      rw [apply_negative] at hpos
      linarith

/-! ## Rounding up -/

/-- A finite double is rounded up to the ceiling of what it is, as far as indexes go.
Below zero there are none, so nothing negative is rounded up to more than zero. -/
theorem Exactly.aboveFloat (ha : Exactly a q) : Index.aboveFloat a = min ⌈q⌉₊ Index.top := by
  have htest : (decide (0.0 < a) && !(Decimal.fraction a == 0.0)) = true ↔
      0 < q ∧ ¬∃ k : ℤ, q = k := by
    rw [Bool.and_eq_true, decide_eq_true_iff, exactly_zero.lt_iff ha, Bool.not_eq_true',
      ← ha.fraction_eq_zero_iff, Bool.not_eq_true]
  unfold Index.aboveFloat Index.ofFloat
  rw [ha.toUInt64]
  by_cases hpart : 0 < q ∧ ¬∃ k : ℤ, q = k
  · -- between two whole numbers the upper one comes next to the lower one
    rw [if_pos (htest.2 hpart)]
    obtain ⟨hpos, hpart⟩ := hpart
    have hne : (⌊q⌋₊ : ℚ) ≠ q := fun heq => hpart ⟨⌊q⌋₊, by rw [Int.cast_natCast, heq]⟩
    have hlt : (⌊q⌋₊ : ℚ) < q := lt_of_le_of_ne (Nat.floor_le hpos.le) hne
    have hceil : ⌈q⌉₊ = ⌊q⌋₊ + 1 :=
      le_antisymm (Nat.ceil_le_floor_add_one q) (Nat.lt_ceil.2 hlt)
    rw [hceil, Index.next]
    omega
  · rw [if_neg (mt htest.1 hpart)]
    rcases le_or_gt q 0 with hneg | hpos
    · rw [Nat.floor_of_nonpos hneg, Nat.ceil_eq_zero.2 hneg]
    · obtain ⟨k, rfl⟩ : ∃ k : ℤ, q = k := not_not.1 fun hpart' => hpart ⟨hpos, hpart'⟩
      obtain ⟨n, rfl⟩ := Int.eq_ofNat_of_zero_le (Int.cast_nonneg_iff.1 hpos.le)
      rw [Int.cast_natCast, Nat.floor_natCast, Nat.ceil_natCast]

/-- Infinity is beyond every index: nothing of it is left behind its point but what is no
number, so it is rounded up, and stays at the top. -/
theorem aboveFloat_of_infinity (h : a.toModel.unpack = .infinity .positive) :
    Index.aboveFloat a = Index.top := by
  have hword : Index.ofFloat a = Index.top := by
    show (UInt64.ofNatClamp (a.toModel.unpack.toInt 0 (UInt64.size - 1)).toNat).toNat = _
    rw [h]
    rfl
  unfold Index.aboveFloat
  rw [hword]
  split
  · rfl
  · rfl

/-- **Rounding up is exact.** Of a double that is not below zero the index from above is
the ceiling of its exact value, and the top if that is beyond it or if the double is
infinite. -/
theorem aboveFloat_eq (h : Nonnegative a.toModel.unpack) :
    Index.aboveFloat a =
      if a.isFinite then min ⌈exactValue a⌉₊ Index.top else Index.top := by
  by_cases hfinite : a.isFinite = true
  · rw [if_pos hfinite, (exactly_exactValue hfinite).aboveFloat]
  · rw [if_neg hfinite]
    exact aboveFloat_of_infinity (h.eq_infinity (Bool.eq_false_iff.2 hfinite))

end GraphMeasures.Double
