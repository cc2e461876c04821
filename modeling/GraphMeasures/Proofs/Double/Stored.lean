import GraphMeasures.Proofs.Double.Nearest
import Mathlib

/-!
# GraphMeasures — the finite doubles

A finite double has 53 digits, or fewer when its exponent is the least one (`Canonical`).
Such a mantissa and exponent are stored without loss (`unpack_pack_canonical`), and what
is stored has no others (`canonical_unpack`). So every finite double is exactly a number
(`exists_exactly`), and doubles are compared as these numbers (`Exactly.lt_iff`,
`Exactly.le_iff`): the negative ones, both zeros and the smallest ones included.
-/

namespace GraphMeasures.Double

open Float.Model (Format UnpackedFloat)
open Float.Model.UnpackedFloat

variable {p q : ℚ} {m m' : Nat} {e e' : ℤ} {x y : UnpackedFloat} {a b : Float}

/-! ## Mantissas and exponents -/

/-- A mantissa has 53 digits, or fewer with the least exponent. -/
structure Canonical (m : Nat) (e : ℤ) : Prop where
  lt : m < 2 ^ 53
  low : -1074 ≤ e
  digits : 2 ^ 52 ≤ m ∨ e = -1074

/-- A larger exponent makes a larger number. The smaller one may have the least
exponent and fewer digits; the larger one has all of its digits, so it is larger
in any case. -/
theorem Canonical.lt_of_exponent_lt (h : Canonical m e) (h' : Canonical m' e') (hlt : e < e') :
    (m * 2 ^ e : ℚ) < m' * 2 ^ e' := by
  -- the larger exponent is not the least one, so all digits are there
  have hdigits : 2 ^ 52 ≤ m' := by
    have hlow := h.low
    exact h'.digits.resolve_right (by omega)
  have hm : (m : ℚ) < 2 ^ 53 := by exact_mod_cast h.lt
  have hm' : (2 : ℚ) ^ 52 ≤ m' := by exact_mod_cast hdigits
  calc (m * 2 ^ e : ℚ) < 2 ^ 53 * 2 ^ e := mul_lt_mul_of_pos_right hm (two_zpow_pos e)
    _ = 2 ^ 52 * 2 ^ (e + 1) := by rw [zpow_add_one₀ two_ne_zero]; ring
    _ ≤ 2 ^ 52 * 2 ^ e' :=
        mul_le_mul_of_nonneg_left (zpow_le_zpow_right₀ one_le_two hlt) (by norm_num)
    _ ≤ m' * 2 ^ e' := mul_le_mul_of_nonneg_right hm' (two_zpow_pos e').le

/-- The exponents decide, and then the mantissas: this is the order of the
numbers, as long as both are canonical. A larger exponent then means a larger
number, because the mantissa beside it has all its digits. -/
theorem Canonical.compare_eq (h : Canonical m e) (h' : Canonical m' e') :
    (compare e e').then (compare m m') = compare (m * 2 ^ e : ℚ) (m' * 2 ^ e') := by
  -- the exponents decide, and the mantissas only where these agree
  rcases lt_trichotomy e e' with hlt | rfl | hgt
  · rw [Int.compare_eq_lt.2 hlt, compare_lt_iff_lt.2 (h.lt_of_exponent_lt h' hlt)]
    rfl
  · have hpow := two_zpow_pos e
    rw [Int.compare_eq_eq.2 rfl]
    rcases lt_trichotomy m m' with hlt | rfl | hgt
    · have hless : (m * 2 ^ e : ℚ) < m' * 2 ^ e :=
        mul_lt_mul_of_pos_right (by exact_mod_cast hlt) hpow
      rw [Nat.compare_eq_lt.2 hlt, compare_lt_iff_lt.2 hless]
      rfl
    · rw [Nat.compare_eq_eq.2 rfl, compare_eq_iff_eq.2 rfl]
      rfl
    · have hmore : (m' * 2 ^ e : ℚ) < m * 2 ^ e :=
        mul_lt_mul_of_pos_right (by exact_mod_cast hgt) hpow
      rw [Nat.compare_eq_gt.2 hgt, compare_gt_iff_gt.2 hmore]
      rfl
  · rw [Int.compare_eq_gt.2 hgt, compare_gt_iff_gt.2 (h'.lt_of_exponent_lt h hgt)]
    rfl

/-! ## What is stored -/

/-- A mantissa with all its digits. -/
theorem digits_of_log2 {m : Nat} (hlog : m.log2 = 52) : 2 ^ 52 ≤ m ∧ m < 2 ^ 53 := by
  have hm : m ≠ 0 := by
    rintro rfl
    simp at hlog
  exact (Nat.log2_eq_iff hm).1 hlog

/-- The leading digit, which is not stored, in front of the stored ones. -/
theorem toNat_leading {m : Nat} (hlog : m.log2 = 52) :
    (1#1 ++ BitVec.ofNat 52 m).toNat = m := by
  obtain ⟨hlow, hhigh⟩ := digits_of_log2 hlog
  rw [BitVec.toNat_append, ← Nat.shiftLeft_add_eq_or_of_lt (BitVec.isLt _), BitVec.toNat_ofNat,
    BitVec.toNat_ofNat, Nat.shiftLeft_eq]
  omega

/-- With all its digits a mantissa is canonical with every exponent that there
is. -/
theorem canonical_of_log2 (hm : m.log2 = 52) (he : -1074 ≤ e) : Canonical m e := by
  obtain ⟨hlow, hhigh⟩ := digits_of_log2 hm
  exact ⟨hhigh, he, Or.inl hlow⟩

/-- A canonical mantissa that is large enough has all its digits. -/
theorem log2_of_digits (h : Canonical m e) (hlow : 2 ^ 52 ≤ m) : m.log2 = 52 :=
  (Nat.log2_eq_iff (by omega)).2 ⟨hlow, h.lt⟩

/-- Few digits are stored without a leading one, and with the exponent zero,
which is read back as the least exponent. -/
theorem unpack_pack_few (s : Sign) (hm : 0 < m) (hfew : m < 2 ^ 52) :
    unpack .binary64 (pack .binary64 (.finite s m (-1074) hm)) = .finite s m (-1074) hm := by
  -- a subnormal mantissa has no leading one, and is stored beside the exponent zero
  have hlog : m.log2 ≠ 52 := fun hlog => by
    have hdigits := (digits_of_log2 hlog).1
    omega
  have hmantissa : (BitVec.ofNat 52 m).toNat = m := by
    rw [BitVec.toNat_ofNat, Nat.mod_eq_of_lt hfew]
  have hnonzero : BitVec.ofNat 52 m ≠ 0#52 := by
    intro heq
    have hbits := congrArg BitVec.toNat heq
    rw [hmantissa] at hbits
    exact hm.ne' hbits
  have hpack : pack .binary64 (.finite s m (-1074) hm) =
      packComponents .binary64 s 0#11 (BitVec.ofNat 52 m) := by
    unfold pack
    dsimp only
    rw [if_neg (by decide), if_neg]
    show ¬ m.log2 + 1 = 53
    omega
  rw [hpack]
  unfold unpack
  simp only [unpackExponent_packComponents, unpackMantissa_packComponents,
    unpackSign_packComponents, if_neg (show (0#11 : BitVec 11) ≠ -1#11 by decide), if_true,
    dif_neg hnonzero, Sign.ofBitVec_toBitVec, hmantissa]
  rfl

/-- Of all digits the leading one is not stored, and the exponent is stored as a
count of steps above the lowest one. This count is neither zero, which is for
mantissas with few digits, nor the largest one, which is for what is no
number. -/
theorem unpack_pack_all (s : Sign) (hm : 0 < m) (hlog : m.log2 = 52) (hlow : -1074 ≤ e)
    (htop : e ≤ 971) :
    unpack .binary64 (pack .binary64 (.finite s m e hm)) = .finite s m e hm := by
  obtain ⟨biased, hbiased⟩ := Int.eq_ofNat_of_zero_le (show 0 ≤ e + 1023 + 52 by omega)
  have htoNat : (BitVec.ofNat 11 biased).toNat = biased := by
    rw [BitVec.toNat_ofNat, Nat.mod_eq_of_lt (by omega)]
  have hexponent : (e + (Format.binary64.exponentBias : ℤ) + (52 : ℕ)).toNat = biased := by
    show (e + 1023 + 52).toNat = biased
    omega
  -- all ones would be read as an infinity, all zeros as a number without leading digit
  have hinfinite : BitVec.ofNat 11 biased ≠ -1#11 := by
    intro heq
    have hbits := congrArg BitVec.toNat heq
    rw [htoNat] at hbits
    have hlargest : (-1#11).toNat = 2047 := rfl
    omega
  have hsmall : BitVec.ofNat 11 biased ≠ 0#11 := by
    intro heq
    have hbits := congrArg BitVec.toNat heq
    rw [htoNat] at hbits
    have hzero : (0#11).toNat = 0 := rfl
    omega
  have hpack : pack .binary64 (.finite s m e hm) =
      packComponents .binary64 s (BitVec.ofNat 11 biased) (BitVec.ofNat 52 m) := by
    unfold pack
    dsimp only
    rw [hexponent, if_neg (by show ¬ 2 ^ 11 ≤ biased + 1; omega), if_pos (by rw [hlog]; rfl)]
  rw [hpack]
  unfold unpack
  simp only [unpackExponent_packComponents, unpackMantissa_packComponents,
    unpackSign_packComponents, if_neg hinfinite, if_neg hsmall, Sign.ofBitVec_toBitVec]
  have hback : ((BitVec.ofNat 11 biased).toNat : ℤ) -
      (Format.binary64.exponentBias + (52 : ℕ)) = e := by
    rw [htoNat]
    show (biased : ℤ) - (1023 + 52) = e
    omega
  simp only [toNat_leading hlog, hback]

/-- Mantissa and exponent are read back as they were stored. -/
theorem unpack_pack_canonical (s : Sign) (hm : 0 < m) (h : Canonical m e) (htop : e ≤ 971) :
    unpack .binary64 (pack .binary64 (.finite s m e hm)) = .finite s m e hm := by
  rcases Nat.lt_or_ge m (2 ^ 52) with hfew | hall
  · obtain rfl : e = -1074 := h.digits.resolve_left (by omega)
    exact unpack_pack_few s hm hfew
  · exact unpack_pack_all s hm (log2_of_digits h hall) h.low htop

/-- An exponent that is too large is stored as the pattern of infinity, with the
sign kept, and is read back as an infinity. -/
theorem unpack_pack_overflow (s : Sign) (hm : 0 < m) (htop : 971 < e) :
    unpack .binary64 (pack .binary64 (.finite s m e hm)) = .infinity s := by
  have hpack : pack .binary64 (.finite s m e hm) = packedInfinity .binary64 s := by
    unfold pack
    dsimp only
    rw [if_pos]
    show 2 ^ 11 ≤ (e + 1023 + 52).toNat + 1
    omega
  rw [hpack]
  cases s <;> rfl

/-- What bits are unpacked as has 53 digits, or fewer with the least exponent.
The cases are those of the stored exponent: zero, the largest one, or one in
between. -/
theorem canonical_unpack {b : BitVec Format.binary64.numBits} {s : Sign} {hm : 0 < m}
    (h : unpack .binary64 b = .finite s m e hm) : Canonical m e ∧ e ≤ 971 := by
  unfold unpack at h
  dsimp only at h
  split at h
  · split at h <;> exact absurd h (by simp)
  next hinfinite =>
  have hexponent : (unpackExponent b).toNat ≠ 2047 := by
    intro heq
    exact hinfinite (BitVec.eq_of_toNat_eq (heq.trans rfl))
  have hexponent_lt : (unpackExponent b).toNat < 2 ^ 11 := (unpackExponent b).isLt
  have hmantissa_lt : (unpackMantissa b).toNat < 2 ^ 52 := (unpackMantissa b).isLt
  split at h
  · next hzero =>
    split at h
    · exact absurd h (by simp)
    -- without a leading digit
    simp only [finite.injEq] at h
    obtain ⟨-, rfl, rfl⟩ := h
    rw [hzero]
    refine ⟨⟨by omega, ?_, Or.inr ?_⟩, ?_⟩
    all_goals decide
  · next hzero =>
    have hpos : (unpackExponent b).toNat ≠ 0 := by
      intro heq
      exact hzero (BitVec.eq_of_toNat_eq (heq.trans rfl))
    have hleading : (1#1 ++ unpackMantissa b).toNat = 2 ^ 52 + (unpackMantissa b).toNat := by
      rw [BitVec.toNat_append, ← Nat.shiftLeft_add_eq_or_of_lt (BitVec.isLt _)]
      rfl
    simp only [finite.injEq] at h
    obtain ⟨-, rfl, rfl⟩ := h
    rw [hleading]
    refine ⟨⟨by omega, ?_, Or.inl (by omega)⟩, ?_⟩
    · show -1074 ≤ ((unpackExponent b).toNat : ℤ) - (1023 + 52)
      omega
    · show ((unpackExponent b).toNat : ℤ) - (1023 + 52) ≤ 971
      omega

/-! ## What a double is -/

/-- An unpacked finite double stands for a number. -/
inductive Denotes : UnpackedFloat → ℚ → Prop
  | zero (s : Sign) : Denotes (.zero s) 0
  | finite (s : Sign) {m : Nat} {e : ℤ} (hm : 0 < m) (h : Canonical m e) (htop : e ≤ 971) :
      Denotes (.finite s m e hm) (s.apply m * 2 ^ e)

theorem apply_positive (m : Nat) (e : ℤ) : (Sign.positive.apply m * 2 ^ e : ℚ) = m * 2 ^ e :=
  rfl

theorem apply_negative (m : Nat) (e : ℤ) : (Sign.negative.apply m * 2 ^ e : ℚ) = -(m * 2 ^ e) := by
  show ((-m : ℤ) : ℚ) * 2 ^ e = _
  rw [Int.cast_neg, Int.cast_natCast, neg_mul]

/-- The opposite sign makes the opposite number. -/
theorem apply_neg (s : Sign) (m : Nat) (e : ℤ) :
    ((-s).apply m * 2 ^ e : ℚ) = -(s.apply m * 2 ^ e) := by
  cases s with
  | negative => rw [apply_negative, neg_neg]; rfl
  | positive => exact apply_negative m e

/-- What stands for a number is read back as it was stored. -/
theorem Denotes.unpack_pack (h : Denotes x q) : unpack .binary64 (pack .binary64 x) = x := by
  cases h with
  | zero s => cases s <;> rfl
  | finite s hm h htop => exact unpack_pack_canonical s hm h htop

/-- The negation of a double stands for the opposite number. -/
theorem Denotes.neg (h : Denotes x q) : Denotes x.neg (-q) := by
  cases h with
  | zero s =>
    rw [neg_zero]
    exact .zero (-s)
  | finite s hm h htop =>
    rw [← apply_neg]
    exact .finite (-s) hm h htop

/-- Opposite numbers are compared the other way round. -/
theorem compare_neg_neg (p q : ℚ) : compare (-p) (-q) = (compare p q).swap := by
  rcases lt_trichotomy p q with hlt | rfl | hgt
  · rw [compare_lt_iff_lt.2 hlt, compare_gt_iff_gt.2 (neg_lt_neg hlt)]
    rfl
  · rw [compare_eq_iff_eq.2 rfl, compare_eq_iff_eq.2 rfl]
    rfl
  · rw [compare_gt_iff_gt.2 hgt, compare_lt_iff_lt.2 (neg_lt_neg hgt)]
    rfl

/-- Unpacked doubles are compared as what they stand for. Zeros are equal
whatever their signs, signs decide before anything else, and below zero the
larger mantissa makes the smaller number. -/
theorem Denotes.compare_eq (hx : Denotes x p) (hy : Denotes y q) :
    x.compare y = some (compare p q) := by
  have hpos : ∀ {m : Nat} (e : ℤ), 0 < m → (0 : ℚ) < m * 2 ^ e :=
    fun e hm => mul_pos (by exact_mod_cast hm) (two_zpow_pos e)
  cases hx with
  | zero =>
    cases hy with
    | zero =>
      rw [compare_eq_iff_eq.2 rfl]
      rfl
    | @finite s' m' e' hm' =>
      cases s' with
      | negative =>
        rw [apply_negative, compare_gt_iff_gt.2 (neg_neg_of_pos (hpos e' hm'))]
        rfl
      | positive =>
        rw [apply_positive, compare_lt_iff_lt.2 (hpos e' hm')]
        rfl
  | @finite s m e hm h =>
    cases hy with
    | zero =>
      cases s with
      | negative =>
        rw [apply_negative, compare_lt_iff_lt.2 (neg_neg_of_pos (hpos e hm))]
        rfl
      | positive =>
        rw [apply_positive, compare_gt_iff_gt.2 (hpos e hm)]
        rfl
    | @finite s' m' e' hm' h' =>
      have hneg := neg_neg_of_pos (hpos e hm)
      have hneg' := neg_neg_of_pos (hpos e' hm')
      -- of two signs that differ the signs decide, of two that are equal the sizes
      cases s <;> cases s'
      case negative.negative =>
        rw [apply_negative, apply_negative, compare_neg_neg, ← h.compare_eq h']
        rfl
      case negative.positive =>
        rw [apply_negative, apply_positive, compare_lt_iff_lt.2 (hneg.trans (hpos e' hm'))]
        rfl
      case positive.negative =>
        rw [apply_positive, apply_negative, compare_gt_iff_gt.2 (hneg'.trans (hpos e hm))]
        rfl
      case positive.positive =>
        rw [apply_positive, apply_positive, ← h.compare_eq h']
        rfl

/-- A double is a number. -/
def Exactly (a : Float) (q : ℚ) : Prop :=
  Denotes a.toModel.unpack q

/-- Bits that are finite stand for a number: they are a zero, or a mantissa with
its exponent, and these two are in their canonical form. -/
theorem exists_denotes {bits : BitVec Format.binary64.numBits}
    (h : (unpack .binary64 bits).isFinite = true) : ∃ q, Denotes (unpack .binary64 bits) q := by
  cases hunpack : unpack .binary64 bits with
  | notANumber => rw [hunpack] at h; contradiction
  | infinity s => rw [hunpack] at h; contradiction
  | zero s => exact ⟨0, .zero s⟩
  | finite s m e hm =>
    obtain ⟨hcanonical, htop⟩ := canonical_unpack hunpack
    exact ⟨s.apply m * 2 ^ e, .finite s hm hcanonical htop⟩

/-- Every finite double is a number. -/
theorem exists_exactly (h : a.isFinite = true) : ∃ q, Exactly a q :=
  exists_denotes h

theorem Denotes.isFinite (h : Denotes x q) : x.isFinite = true := by
  cases h <;> rfl

theorem Exactly.isFinite (h : Exactly a q) : a.isFinite = true :=
  Denotes.isFinite h

/-- The negation of a double is exactly the opposite number. -/
theorem Exactly.neg (h : Exactly a q) : Exactly (-a) (-q) := by
  show Denotes (unpack .binary64 (pack .binary64 a.toModel.unpack.neg)) (-q)
  rw [(Denotes.neg h).unpack_pack]
  exact Denotes.neg h

theorem exactly_zero : Exactly 0.0 0 :=
  .zero .positive

/-! ## The order -/

/-- The order of the doubles is that of the numbers that they are. -/
theorem Exactly.le_iff (ha : Exactly a p) (hb : Exactly b q) : a ≤ b ↔ p ≤ q := by
  have hle : a ≤ b ↔ (a.toModel.unpack.compare b.toModel.unpack).any (·.isLE) = true :=
    decide_eq_true_iff
  rw [hle, Denotes.compare_eq ha hb, Option.any_some, ← Ordering.ne_gt_iff_isLE]
  exact compare_le_iff_le

theorem Exactly.lt_iff (ha : Exactly a p) (hb : Exactly b q) : a < b ↔ p < q := by
  have hlt : a < b ↔ (a.toModel.unpack.compare b.toModel.unpack == some .lt) = true :=
    decide_eq_true_iff
  rw [hlt, Denotes.compare_eq ha hb, beq_iff_eq, Option.some.injEq, compare_lt_iff_lt]

end GraphMeasures.Double
