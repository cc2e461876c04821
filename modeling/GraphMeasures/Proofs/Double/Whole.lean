import GraphMeasures.Decimal.Binary64
import GraphMeasures.Quantity
import GraphMeasures.Proofs.Double.Arithmetic
import Mathlib

/-!
# GraphMeasures — whole doubles

Whether a double has digits behind its point is told without error. A difference of
doubles is rounded, but it is zero only for equal ones, since the least exponent leaves
room for the digits of small numbers (`Exactly.sub_eq_zero_iff`). A double becomes a
word by dropping what is behind the point and by staying at the top (`Exactly.toUInt64`),
so taking the digits before the point through a word keeps them all
(`Exactly.truncated`), and a double is a whole number exactly if nothing is left behind
the point (`Exactly.fraction_eq_zero_iff`).
-/

namespace GraphMeasures.Double

open Float.Model (Format UnpackedFloat)
open Float.Model.UnpackedFloat

variable {p q : ℚ} {m m' : Nat} {e e' : ℤ} {x y : UnpackedFloat} {a b : Float}

/-! ## Differences -/

/-- A mantissa that is not zero is never read back as a zero. A canonical one is
stored with all its digits, unless its exponent is too large, and then it
becomes infinite. -/
theorem unpack_pack_ne_zero (s s' : Sign) (hm : 0 < m) (h : Canonical m e) :
    unpack .binary64 (pack .binary64 (.finite s m e hm)) ≠ .zero s' := by
  rcases le_or_gt e 971 with htop | htop
  · rw [unpack_pack_canonical s hm h htop]
    exact UnpackedFloat.noConfusion
  · rw [unpack_pack_overflow s hm htop]
    exact UnpackedFloat.noConfusion

/-- A mantissa with the least exponent has nothing to be shifted out: there is
no smaller exponent to which it could be brought. -/
theorem shiftToTargetExponent_least (hlog : m.log2 ≤ 52) :
    shiftToTargetExponent .binary64 m (-1074) .exact = (⟨m, false, false⟩, -1074) := by
  have htarget : Format.binary64.targetExponent (Float.Model.totalExponent m (-1074)) = -1074 := by
    simp only [Format.targetExponent, Float.Model.totalExponent, Format.mantissaBits,
      Format.minExponent]
    omega
  unfold shiftToTargetExponent
  rw [htarget]
  rfl

/-- With few digits and a small exponent nothing is rounded: all digits fit
behind the least exponent, so the mantissa is moved there as a whole. -/
theorem round_least (s : Sign) (hm : 0 < m) (he : -1074 ≤ e) (hsmall : m.log2 + e < -1022) :
    ∃ (m' : Nat) (hm' : 0 < m'), UnpackedFloat.round .binary64 s m e = .finite s m' (-1074) hm' ∧
      Canonical m' (-1074) := by
  have htarget : Format.binary64.targetExponent (Float.Model.totalExponent m e) = -1074 := by
    simp only [Format.targetExponent, Float.Model.totalExponent, Format.mantissaBits,
      Format.minExponent]
    omega
  obtain ⟨k, hk⟩ := Int.eq_ofNat_of_zero_le (show 0 ≤ e - -1074 by omega)
  have hpos : 0 < m <<< k := by
    rw [Nat.shiftLeft_eq]
    positivity
  -- moved up to the least exponent the digits are still too few to be rounded
  have hlt : m <<< k < 2 ^ 52 := by
    rw [Nat.shiftLeft_eq]
    calc m * 2 ^ k < 2 ^ (m.log2 + 1) * 2 ^ k :=
          Nat.mul_lt_mul_of_pos_right Nat.lt_log2_self (Nat.two_pow_pos k)
      _ = 2 ^ (m.log2 + 1 + k) := (pow_add ..).symm
      _ ≤ 2 ^ 52 := Nat.pow_le_pow_right two_pos (by omega)
  have hlog : (m <<< k).log2 ≤ 52 := ((Nat.log2_lt hpos.ne').2 hlt).le
  have hshift := shiftToTargetExponent_least hlog
  refine ⟨m <<< k, hpos, ?_, ⟨by omega, le_rfl, Or.inr rfl⟩⟩
  unfold UnpackedFloat.round decreaseExponent
  rw [htarget]
  dsimp only
  rw [hk, Int.toNat_natCast, show e - (k : ℤ) = -1074 by omega]
  exact roundWithAccuracy_eq hshift hshift hpos

/-- A number that is a multiple of the least double is not rounded to zero. It
has few digits, and then it is exact; or it has many, and then its mantissa is
large. -/
theorem unpack_pack_round_ne_zero (s s' : Sign) (hm : 0 < m) (he : -1074 ≤ e) :
    unpack .binary64 (pack .binary64 (UnpackedFloat.round .binary64 s m e)) ≠ .zero s' := by
  rcases lt_or_ge (m.log2 + e) (-1022) with hsmall | hmin
  · obtain ⟨m', hm', heq, hcanonical⟩ := round_least s hm he hsmall
    rw [heq]
    exact unpack_pack_ne_zero s s' hm' hcanonical
  · -- what is rounded keeps a leading digit
    have hfull := full_round s hm hmin
    generalize UnpackedFloat.round .binary64 s m e = x at hfull
    obtain ⟨m', e', hm', hlog, he', -⟩ := hfull
    exact unpack_pack_ne_zero s s' hm' (canonical_of_log2 hlog he')

/-- Of whole multiples of a power of two that is not below the least double,
only the zeroth is rounded to a zero. -/
theorem normalize_eq_zero_iff {k : ℤ} (he : -1074 ≤ e) :
    (∃ s, unpack .binary64 (pack .binary64 (normalize .binary64 k e .positive)) = .zero s) ↔
      k = 0 := by
  unfold UnpackedFloat.normalize
  rcases lt_trichotomy k 0 with hneg | rfl | hpos
  · rw [Int.compare_eq_lt.2 hneg]
    refine iff_of_false (fun ⟨s, hs⟩ => ?_) hneg.ne
    exact unpack_pack_round_ne_zero .negative s (by omega) he hs
  · rw [Int.compare_eq_eq.2 rfl]
    exact iff_of_true ⟨.positive, (Denotes.zero .positive).unpack_pack⟩ rfl
  · rw [Int.compare_eq_gt.2 hpos]
    refine iff_of_false (fun ⟨s, hs⟩ => ?_) hpos.ne'
    exact unpack_pack_round_ne_zero .positive s (by omega) he hs

/-- A signed mantissa that is not zero is no zero. -/
theorem apply_ne_zero (s : Sign) (hm : 0 < m) (e : ℤ) : (s.apply m * 2 ^ e : ℚ) ≠ 0 := by
  have hpos : (m * 2 ^ e : ℚ) ≠ 0 := (mul_pos (by exact_mod_cast hm) (two_zpow_pos e)).ne'
  cases s with
  | negative => rwa [apply_negative, neg_ne_zero]
  | positive => exact hpos

/-- A mantissa that is shifted as far as its exponent is lowered is the same
number. -/
theorem apply_shiftLeft (s : Sign) (m : Nat) {e t : ℤ} (h : t ≤ e) :
    (s.apply (m <<< (e - t).toNat : ℕ) * 2 ^ t : ℚ) = s.apply m * 2 ^ e := by
  cases s with
  | negative => rw [apply_negative, apply_negative, decreaseExponent_value m h]
  | positive => exact decreaseExponent_value m h

/-- Only equal doubles have the difference zero. The two are brought to the
smaller of their exponents, where the difference is a whole multiple; this is
not below the least double, so rounding does not bring it down to zero. -/
theorem Denotes.sub_eq_zero_iff (hx : Denotes x p) (hy : Denotes y q) :
    (∃ s, unpack .binary64 (pack .binary64 (sub .binary64 x y)) = .zero s) ↔ p = q := by
  cases hx with
  | zero s =>
    cases hy with
    | zero s' => exact iff_of_true (by cases s <;> cases s' <;> exact ⟨_, rfl⟩) rfl
    | @finite s' m' e' hm' h' =>
      -- the difference from a zero is the other double, turned
      refine iff_of_false (fun ⟨t, ht⟩ => ?_) (apply_ne_zero s' hm' e').symm
      exact unpack_pack_ne_zero (-s') t hm' h' ht
  | @finite s m e hm h =>
    cases hy with
    | zero s' =>
      refine iff_of_false (fun ⟨t, ht⟩ => ?_) (apply_ne_zero s hm e)
      exact unpack_pack_ne_zero s t hm h ht
    | @finite s' m' e' hm' h' =>
      -- both are written with the smaller exponent
      have hleft := apply_shiftLeft s m (min_le_left e e')
      have hright := apply_shiftLeft s' m' (min_le_right e e')
      have hlow : -1074 ≤ min e e' := le_min h.low h'.low
      have hpow := (two_zpow_pos (min e e')).ne'
      rw [← hleft, ← hright, mul_left_inj' hpow, Int.cast_inj, ← sub_eq_zero]
      exact normalize_eq_zero_iff hlow

/-- A double is equal to zero exactly if it is one of the two zeros. The
comparison is one of numbers, so it does not tell their signs apart. -/
theorem beq_zero_iff {w : Float} : (w == 0.0) = true ↔ ∃ s, w.toModel.unpack = .zero s := by
  have hbeq : (w == 0.0) = w.toModel.unpack.beq (.zero .positive) := rfl
  rw [hbeq]
  generalize w.toModel.unpack = x
  cases x with
  | notANumber => exact iff_of_false (by decide) (fun ⟨s, hs⟩ => by contradiction)
  | infinity s =>
    exact iff_of_false (by cases s <;> decide) (fun ⟨s, hs⟩ => by contradiction)
  | zero s => exact iff_of_true rfl ⟨s, rfl⟩
  | finite s m e hm =>
    exact iff_of_false (by cases s <;> exact Bool.false_ne_true) (fun ⟨s, hs⟩ => by contradiction)

/-- A difference is told apart from zero although it is rounded. So to compare a
double with what is left of it without its digits behind the point is to compare
numbers. -/
theorem Exactly.sub_eq_zero_iff (ha : Exactly a p) (hb : Exactly b q) :
    (a - b == 0.0) = true ↔ p = q := by
  rw [beq_zero_iff]
  exact Denotes.sub_eq_zero_iff ha hb

/-! ## Words -/

/-- What is behind the point is dropped, before the sign is looked at: a number
goes to the integer below its size, and then gets its sign back. -/
theorem roundToInt_eq (s : Sign) (m : Nat) (e : ℤ) :
    roundToInt s m e = s.apply ⌊(m * 2 ^ e : ℚ)⌋ := by
  -- one of the two shifts is by nothing: either no digit is dropped, or those behind the point
  have hfloor := ((shows_exact (m <<< (e - 0).toNat)).shiftRight (0 - (e - (e - 0).toNat)).toNat).floor
  have hvalue : ((m <<< (e - 0).toNat : ℕ) : ℚ) / 2 ^ (0 - (e - (e - 0).toNat)).toNat =
      m * 2 ^ e := by
    rw [← shiftLeft_value m (e - 0).toNat e, div_eq_mul_inv, ← zpow_natCast, ← zpow_neg]
    congr 2
    omega
  rw [hvalue] at hfloor
  rw [hfloor]
  rfl

/-- A number that is too large for a word is cut off at the largest one. -/
theorem toNat_ofNatClamp (n : Nat) : (UInt64.ofNatClamp n).toNat = min n Index.top := by
  have hsize : UInt64.size = Index.top + 1 := rfl
  rcases Nat.lt_or_ge n UInt64.size with hlt | hge
  · rw [UInt64.toNat_ofNatClamp_of_lt hlt, Nat.min_eq_left (by omega)]
  · rw [UInt64.toNat_ofNatClamp_of_le hge, Nat.min_eq_right (by omega)]
    rfl

/-- A double becomes the largest word that is not above it; what is negative
becomes zero, and what is too large becomes the largest word. There is no
undefined case. -/
theorem Exactly.toUInt64 (ha : Exactly a q) : a.toUInt64.toNat = min ⌊q⌋₊ Index.top := by
  have hword : ∀ {x : UnpackedFloat}, Denotes x q →
      (x.toInt 0 (UInt64.size - 1)).toNat = ⌊q⌋₊ := by
    rintro _ (s | @⟨s, m, e, hm, -, -⟩)
    -- a negative double is below every word, so that its digits do not matter
    · rw [Nat.floor_zero]
      rfl
    · have hnonneg : (0 : ℚ) ≤ m * 2 ^ e := mul_nonneg m.cast_nonneg (two_zpow_pos e).le
      show (roundToInt s m e).toNat = _
      rw [roundToInt_eq]
      cases s with
      | negative =>
        rw [apply_negative, Nat.floor_of_nonpos (neg_nonpos_of_nonneg hnonneg)]
        exact Int.toNat_of_nonpos (neg_nonpos_of_nonneg (Int.floor_nonneg.2 hnonneg))
      | positive => exact Int.floor_toNat _
  show (UInt64.ofNatClamp (a.toModel.unpack.toInt 0 (UInt64.size - 1)).toNat).toNat = _
  rw [toNat_ofNatClamp, hword ha]

/-- A word with few enough digits becomes the double that it is. Others would be
rounded. -/
theorem exactly_toFloat {n : UInt64} (hn : n.toNat ≤ 2 ^ 53) : Exactly n.toFloat n.toNat := by
  have hvalue := hasValue_toFloat n.toNat_lt
  rw [rounded_natCast hn] at hvalue
  have hself : n.toNat.toUInt64 = n := UInt64.ofNat_toNat
  rw [hself] at hvalue
  exact hvalue.exactly

/-! ## Digits behind the point -/

/-- A double that is a power of two. Its mantissa has all digits that there are,
so it is canonical with every exponent. -/
theorem exactly_of_unpack {e : ℤ} (hlow : -1074 ≤ e) (htop : e ≤ 971)
    (h : a.toModel.unpack = .finite .positive (2 ^ 52) e (by decide)) :
    Exactly a ((2 ^ 52 : ℕ) * 2 ^ e) := by
  unfold Exactly
  rw [h]
  exact .finite .positive (by decide) (canonical_of_log2 Nat.log2_two_pow hlow) htop

/-- From the double that is called so on, doubles are whole. -/
theorem exactly_wholeFrom : Exactly Decimal.wholeFrom (2 ^ 53) := by
  have hvalue : (2 ^ 53 : ℚ) = (2 ^ 52 : ℕ) * 2 ^ (1 : ℤ) := by norm_num
  rw [hvalue]
  exact exactly_of_unpack (by decide) (by decide) rfl

/-- A large double has no digits behind its point: its mantissa alone is not
that large, so the exponent is not negative, and a whole power of two is
multiplied. -/
theorem Denotes.whole_of_large (hx : Denotes x q) (hlarge : 2 ^ 53 ≤ |q|) : ∃ k : ℤ, q = k := by
  obtain s | @⟨s, m, e, hm, h, -⟩ := hx
  · exact ⟨0, Int.cast_zero.symm⟩
  · -- the mantissa alone is not that large
    have habs : |(s.apply m * 2 ^ e : ℚ)| = m * 2 ^ e := by
      have hnonneg : (0 : ℚ) ≤ m * 2 ^ e := mul_nonneg m.cast_nonneg (two_zpow_pos e).le
      cases s with
      | negative => rw [apply_negative, abs_neg, abs_of_nonneg hnonneg]
      | positive => exact abs_of_nonneg hnonneg
    have he : 0 ≤ e := by
      by_contra hneg
      have hm : (m : ℚ) < 2 ^ 53 := by exact_mod_cast h.lt
      have hpow : (2 : ℚ) ^ e ≤ 1 := zpow_le_one_of_nonpos₀ one_le_two (by omega)
      have hless : (m * 2 ^ e : ℚ) < 2 ^ 53 :=
        lt_of_le_of_lt (mul_le_of_le_one_right m.cast_nonneg hpow) hm
      exact absurd (habs ▸ hlarge) (not_le_of_gt hless)
    obtain ⟨k, rfl⟩ := Int.eq_ofNat_of_zero_le he
    exact ⟨s.apply m * 2 ^ k, by push_cast; rw [zpow_natCast]⟩

/-- Digits before the point that fit a word go through it unchanged, and all
that lies behind the point is dropped on the way. -/
theorem Exactly.toFloat_toUInt64 (ha : Exactly a q) (hnonneg : 0 ≤ q) (hlt : q < 2 ^ 53) :
    Exactly a.toUInt64.toFloat ⌊q⌋ := by
  -- below `2 ^ 53` the word neither stays at its top nor is rounded on its way back
  have hfloor : ⌊q⌋₊ < 2 ^ 53 := (Nat.floor_lt hnonneg).2 (by exact_mod_cast hlt)
  have hword : a.toUInt64.toNat = ⌊q⌋₊ := by
    rw [ha.toUInt64, Nat.min_eq_left]
    exact hfloor.le.trans (by decide)
  have hcast : (⌊q⌋ : ℚ) = (a.toUInt64.toNat : ℕ) := by
    rw [hword, natCast_floor_eq_intCast_floor hnonneg]
  rw [hcast]
  exact exactly_toFloat (by omega)

/-- Without the digits behind its point a double is rounded toward zero. Small
doubles go through a word, with the sign taken off before and put back; large
ones are whole and stay as they are. -/
theorem Exactly.truncated (ha : Exactly a q) :
    Exactly (Decimal.truncated a) (if 0 ≤ q then ⌊q⌋ else ⌈q⌉ : ℤ) := by
  -- the two comparisons of doubles, read as ones of their exact values
  have hpos_iff : (decide (0.0 < a) && decide (a < Decimal.wholeFrom)) = true ↔
      0 < q ∧ q < 2 ^ 53 := by
    rw [Bool.and_eq_true, decide_eq_true_iff, decide_eq_true_iff, exactly_zero.lt_iff ha,
      ha.lt_iff exactly_wholeFrom]
  have hneg_iff : (decide (-Decimal.wholeFrom < a) && decide (a < 0.0)) = true ↔
      -2 ^ 53 < q ∧ q < 0 := by
    rw [Bool.and_eq_true, decide_eq_true_iff, decide_eq_true_iff,
      exactly_wholeFrom.neg.lt_iff ha, ha.lt_iff exactly_zero]
  unfold Decimal.truncated
  by_cases hpos : 0 < q ∧ q < 2 ^ 53
  · rw [if_pos (hpos_iff.2 hpos), if_pos hpos.1.le]
    exact ha.toFloat_toUInt64 hpos.1.le hpos.2
  rw [if_neg (mt hpos_iff.1 hpos)]
  by_cases hneg : -2 ^ 53 < q ∧ q < 0
  · rw [if_pos (hneg_iff.2 hneg), if_neg (not_le_of_gt hneg.2)]
    have hsize := ha.neg.toFloat_toUInt64 (by linarith) (by linarith)
    rw [← neg_neg ⌈q⌉, ← Int.floor_neg, Int.cast_neg]
    exact hsize.neg
  · -- zero and the large doubles are whole numbers already
    rw [if_neg (mt hneg_iff.1 hneg)]
    obtain ⟨k, rfl⟩ : ∃ k : ℤ, q = k := by
      rcases eq_or_ne q 0 with rfl | hne
      · exact ⟨0, Int.cast_zero.symm⟩
      · refine Denotes.whole_of_large ha (le_abs'.2 ?_)
        rcases lt_or_gt_of_ne hne with hless | hmore
        · exact Or.inl (not_lt.1 fun hlarge => hneg ⟨hlarge, hless⟩)
        · exact Or.inr (not_lt.1 fun hlarge => hpos ⟨hmore, hlarge⟩)
    rwa [Int.floor_intCast, Int.ceil_intCast, ite_self]

/-- Nothing stands behind the point of a whole number, and of no other. What is
behind the point is a rounded difference, but this is zero for equal doubles
only. -/
theorem Exactly.fraction_eq_zero_iff (ha : Exactly a q) :
    (Decimal.fraction a == 0.0) = true ↔ ∃ k : ℤ, q = k := by
  unfold Decimal.fraction
  rw [ha.sub_eq_zero_iff ha.truncated]
  constructor
  · exact fun h => ⟨_, h⟩
  · rintro ⟨k, rfl⟩
    rw [Int.floor_intCast, Int.ceil_intCast, ite_self]

end GraphMeasures.Double
