import GraphMeasures.Proofs.Double.Rounding

/-!
# GraphMeasures — sums and quotients of counts

Doubles that count something, and sums, products and quotients of them, are the doubles
that are nearest to the exact results (`HasValue.add`, `HasValue.mul`, `HasValue.div`,
`hasValue_ofNat`), and they are compared as what they stand for (`HasValue.le`).
-/

namespace GraphMeasures.Double

open Float.Model (Format UnpackedFloat)
open Float.Model.UnpackedFloat

variable {p q : ℚ}

/-! ## Operations -/

/-- A double stands for a number, zero or positive. -/
def HasValue (x : Float) (q : ℚ) : Prop :=
  Stands x.toModel.unpack q

/-- What stands for a number needs no rounding. -/
theorem Stands.rounded_eq {x : UnpackedFloat} (h : Stands x q) : rounded q = q := by
  cases h with
  | zero => exact rounded_zero
  | finite m e hm hlog =>
    have hdigit : lastDigit (m * 2 ^ e : ℚ) = e := by
      rw [lastDigit, (shows_exact m).log_mul hm.ne', hlog]
      omega
    exact rounded_eq_self (k := m) (by rw [hdigit, Int.cast_natCast])

theorem shiftLeft_value (m k : Nat) (e : ℤ) :
    ((m <<< k : ℕ) : ℚ) * 2 ^ (e - k) = m * 2 ^ e := by
  rw [Nat.shiftLeft_eq, Nat.cast_mul, Nat.cast_pow, Nat.cast_ofNat, mul_assoc, ← zpow_natCast,
    ← zpow_add₀ two_ne_zero, add_sub_cancel]

/-- A smaller exponent changes nothing if the mantissa gets the digits for
it. -/
theorem decreaseExponent_value (m : Nat) {e t : ℤ} (h : t ≤ e) :
    ((m <<< (e - t).toNat : ℕ) : ℚ) * 2 ^ t = m * 2 ^ e := by
  rw [← shiftLeft_value m (e - t).toNat e]
  congr 2
  omega

/-- Digits that were added by a shift are there: a mantissa that is not zero has
as many more of them as it was shifted by. -/
theorem le_log2_shiftLeft {m k : Nat} (hm : 0 < m) (hk : 52 ≤ m.log2 + k) :
    52 ≤ (m <<< k).log2 := by
  have hpos : m <<< k ≠ 0 := by
    rw [Nat.shiftLeft_eq]
    positivity
  rw [Nat.le_log2 hpos, Nat.shiftLeft_eq]
  calc 2 ^ 52 ≤ 2 ^ (m.log2 + k) := Nat.pow_le_pow_right two_pos hk
    _ = 2 ^ m.log2 * 2 ^ k := pow_add ..
    _ ≤ m * 2 ^ k := Nat.mul_le_mul_right _ (Nat.log2_self_le hm.ne')

/-- An integer with an exponent is rounded after digits have been added to it.
It has enough of them then, or had them already; and what is shown is the same
number as before. -/
theorem full_round (s : Sign) {m : Nat} {e : ℤ} (hm : 0 < m) (hmin : -1022 ≤ m.log2 + e) :
    Full s (rounded (m * 2 ^ e)) (UnpackedFloat.round .binary64 s m e) := by
  -- shifting the mantissa up to 53 digits lowers the exponent and keeps the value
  have hshift : (e - (m.log2 + e - 52)).toNat = 52 - m.log2 := by omega
  have hbits : 52 ≤ (m <<< (52 - m.log2)).log2 := le_log2_shiftLeft hm (by omega)
  have hvalue := shiftLeft_value m (52 - m.log2) e
  have hlog := congrArg (Int.log 2) hvalue
  have hpos : m <<< (52 - m.log2) ≠ 0 := by
    rintro hzero
    simp [hzero] at hbits
  rw [(shows_exact _).log_mul hpos, (shows_exact m).log_mul hm.ne'] at hlog
  rw [← hvalue]
  unfold UnpackedFloat.round decreaseExponent
  rw [targetExponent_eq hmin]
  dsimp only
  rw [hshift]
  exact full_roundWithAccuracy s (shows_exact _) hbits (by omega)

/-- Rounded, a positive mantissa with an exponent stands for the nearest
double. -/
theorem stands_round {m : Nat} {e : ℤ} (hm : 0 < m) (hmod : Moderate (m * 2 ^ e)) :
    Stands (UnpackedFloat.round .binary64 .positive m e) (rounded (m * 2 ^ e)) := by
  have hbounds := hmod.log_bounds
  rw [(shows_exact m).log_mul hm.ne'] at hbounds
  exact (full_round .positive hm (by omega)).stands

/-- The same for a mantissa that comes with a sign of its own. -/
theorem stands_normalize {m : Nat} {e : ℤ} (hm : 0 < m) (hmod : Moderate (m * 2 ^ e))
    (zeroSign : Sign) :
    Stands (UnpackedFloat.normalize .binary64 m e zeroSign) (rounded (m * 2 ^ e)) := by
  have hcompare : compare (m : ℤ) 0 = .gt := Int.compare_eq_gt.2 (by omega)
  unfold UnpackedFloat.normalize
  rw [hcompare]
  exact stands_round hm hmod

/-- Unpacked doubles are added exactly, and the sum is rounded. The cases are
those of zeros and numbers; two numbers are brought to the smaller of their
exponents, where their mantissas are added as integers. -/
theorem Stands.add {x y : UnpackedFloat} (hx : Stands x p) (hy : Stands y q)
    (h : Usual (p + q)) : Stands (add .binary64 x y) (Double.rounded (p + q)) := by
  cases hx with
  | zero =>
    -- the other summand is returned as it is
    rw [zero_add, hy.rounded_eq]
    cases hy with
    | zero => exact .zero
    | finite m e hm hlog => exact .finite m e hm hlog
  | finite m e hm hlog =>
    cases hy with
    | zero =>
      have hx : Stands (.finite .positive m e hm) (m * 2 ^ e) := .finite m e hm hlog
      rw [add_zero, hx.rounded_eq]
      exact hx
    | finite m' e' hm' hlog' =>
      -- both are written with the smaller exponent
      have hsum : (m * 2 ^ e + m' * 2 ^ e' : ℚ) =
          ((m <<< (e - min e e').toNat + m' <<< (e' - min e e').toNat : ℕ) : ℚ) *
            2 ^ min e e' := by
        rw [Nat.cast_add, add_mul, decreaseExponent_value m (min_le_left e e'),
          decreaseExponent_value m' (min_le_right e e')]
      have hpos : 0 < m <<< (e - min e e').toNat + m' <<< (e' - min e e').toNat := by
        rw [Nat.shiftLeft_eq]
        positivity
      have hmod : Moderate (m * 2 ^ e + m' * 2 ^ e') := by
        refine h.resolve_left (ne_of_gt ?_)
        have hm : (0 : ℚ) < m := by exact_mod_cast hm
        have hpow := two_zpow_pos e
        have hpow' := two_zpow_pos e'
        positivity
      rw [hsum] at hmod ⊢
      have hstands := stands_normalize hpos hmod .positive
      exact_mod_cast hstands

/-- The sum of two doubles is the rounded sum, if this is neither too large nor
too small. -/
theorem HasValue.add {a b : Float} (ha : HasValue a p) (hb : HasValue b q) (h : Usual (p + q)) :
    HasValue (a + b) (rounded (p + q)) := by
  have hsum := Stands.add ha hb h
  show Stands (unpack .binary64 (pack .binary64 (UnpackedFloat.add .binary64 _ _))) _
  rwa [unpack_pack hsum h.rounded]

/-- Mantissas with all their digits differ by less than a factor of two, so the
exponent of a moderate quotient is moderate as well, far from the ends of the
range. -/
theorem exponent_bounds_of_div {m m' : Nat} (hlog : m.log2 = 52) (hlog' : m'.log2 = 52) {e : ℤ}
    (hmod : Moderate (m / m' * 2 ^ e)) : -200 ≤ e ∧ e ≤ 200 := by
  obtain ⟨hlow, hhigh⟩ := digits_of_log2 hlog
  obtain ⟨hlow', hhigh'⟩ := digits_of_log2 hlog'
  have hpos' : (0 : ℚ) < m' := by exact_mod_cast (by omega : 0 < m')
  -- so the exponent alone nearly decides how large the quotient is
  have hlt : (m / m' : ℚ) < 2 := by
    rw [div_lt_iff₀ hpos']
    exact_mod_cast (by omega : m < 2 * m')
  have hgt : (1 / 2 : ℚ) < m / m' := by
    rw [div_lt_div_iff₀ two_pos hpos']
    exact_mod_cast (by omega : 1 * m' < m * 2)
  have hpow := two_zpow_pos e
  constructor
  · have hstep : (2 : ℚ) ^ (-200 : ℤ) < 2 ^ (e + 1) := by
      rw [zpow_add_one₀ two_ne_zero, mul_comm]
      exact hmod.lower.trans_lt (mul_lt_mul_of_pos_right hlt hpow)
    have hexponent := (zpow_lt_zpow_iff_right₀ one_lt_two).1 hstep
    omega
  · have hstep : (2 : ℚ) ^ (e - 1) < 2 ^ (200 : ℤ) := by
      rw [zpow_sub_one₀ two_ne_zero, ← one_div, mul_comm]
      exact (mul_lt_mul_of_pos_right hgt hpow).trans_le hmod.upper
    have hexponent := (zpow_lt_zpow_iff_right₀ one_lt_two).1 hstep
    omega

/-- The numerator gets 53 more digits before it is divided, and what is left
over shows in the accuracy: as nothing, less than a half, a half, or more. -/
theorem divCore_eq {m m' : Nat} (hlog : m.log2 = 52) (hlog' : m'.log2 = 52) {e e' : ℤ}
    (he : -1000 ≤ e - e') :
    divCore .binary64 m e m' e' =
      ((m <<< 53) / m', e - e' - 53, accuracyOfFraction ((m <<< 53) % m') m') := by
  have htarget : min (e - e') (Format.binary64.targetExponent
      (Float.Model.totalExponent m e - Float.Model.totalExponent m' e')) = e - e' - 53 := by
    simp only [Format.targetExponent, Float.Model.totalExponent, Format.mantissaBits,
      Format.minExponent]
    omega
  have hshift : (e - e' - (e - e' - 53)).toNat = 53 := by omega
  unfold divCore
  rw [htarget]
  dsimp only
  rw [hshift]

/-- With these the quotient has all the digits that rounding asks for. -/
theorem le_log2_quotient {m m' : Nat} (hlog : m.log2 = 52) (hlog' : m'.log2 = 52) :
    52 ≤ ((m <<< 53) / m').log2 := by
  obtain ⟨hlow, -⟩ := digits_of_log2 hlog
  obtain ⟨hlow', hhigh'⟩ := digits_of_log2 hlog'
  have hle : 2 ^ 52 ≤ (m <<< 53) / m' := by
    rw [Nat.le_div_iff_mul_le (by omega), Nat.shiftLeft_eq]
    exact Nat.mul_le_mul hlow hhigh'.le
  rwa [Nat.le_log2 (by omega)]

/-- Two mantissas with all their digits are divided. The numerator is shifted
first, so that the quotient has enough digits for one correct rounding. -/
theorem stands_quotient {m m' : Nat} {e e' : ℤ} (hm : 0 < m) (hm' : 0 < m') (hlog : m.log2 = 52)
    (hlog' : m'.log2 = 52) (hmod : Moderate (m / m' * 2 ^ (e - e'))) :
    Stands (div .binary64 (.finite .positive m e hm) (.finite .positive m' e' hm'))
      (Double.rounded (m / m' * 2 ^ (e - e'))) := by
  obtain ⟨hlow, -⟩ := exponent_bounds_of_div hlog hlog' hmod
  have hcore := @divCore_eq m m' hlog hlog' e e' (by omega)
  have hbits := le_log2_quotient hlog hlog'
  have hshows := shows_quotient (m <<< 53) hm'
  -- the numerator is shifted, so that the quotient has enough digits to be rounded from
  have hvalue : ((m <<< 53 : ℕ) / m' : ℚ) * 2 ^ (e - e' - 53) = m / m' * 2 ^ (e - e') := by
    rw [div_mul_eq_mul_div, div_mul_eq_mul_div]
    exact congrArg (· / (m' : ℚ)) (shiftLeft_value m 53 (e - e'))
  generalize m <<< 53 = numerator at hcore hbits hshows hvalue
  rw [← hvalue] at hmod ⊢
  unfold UnpackedFloat.div
  dsimp only
  rw [hcore]
  exact stands_roundWithAccuracy hshows hbits hmod

/-- Unpacked doubles are divided exactly, and the quotient is rounded once, as
long as it is zero or of a usual size. -/
theorem Stands.div {x y : UnpackedFloat} (hx : Stands x p) (hy : Stands y q) (hq : q ≠ 0)
    (h : Usual (p / q)) : Stands (div .binary64 x y) (Double.rounded (p / q)) := by
  -- the divisor is not zero, and a dividend of zero gives zero
  cases hy with
  | zero => exact absurd rfl hq
  | finite m' e' hm' hlog' =>
    cases hx with
    | zero =>
      rw [zero_div, rounded_zero]
      exact .zero
    | finite m e hm hlog =>
      have hquotient : (m * 2 ^ e / (m' * 2 ^ e') : ℚ) = m / m' * 2 ^ (e - e') := by
        rw [zpow_sub₀ two_ne_zero, mul_div_mul_comm]
      rw [hquotient] at h ⊢
      have hpos : (0 : ℚ) < m / m' * 2 ^ (e - e') :=
        mul_pos (div_pos (by exact_mod_cast hm) (by exact_mod_cast hm')) (two_zpow_pos _)
      exact stands_quotient hm hm' hlog hlog' (h.resolve_left hpos.ne')

/-- The quotient of two doubles is the rounded quotient. -/
theorem HasValue.div {a b : Float} (ha : HasValue a p) (hb : HasValue b q) (hq : q ≠ 0)
    (h : Usual (p / q)) : HasValue (a / b) (rounded (p / q)) := by
  have hquotient := Stands.div ha hb hq h
  show Stands (unpack .binary64 (pack .binary64 (UnpackedFloat.div .binary64 _ _))) _
  rwa [unpack_pack hquotient h.rounded]

/-- Unpacked doubles are multiplied exactly, and the product is rounded once, as
long as it is zero or of a usual size. -/
theorem Stands.mul {x y : UnpackedFloat} (hx : Stands x p) (hy : Stands y q)
    (h : Usual (p * q)) : Stands (mul .binary64 x y) (Double.rounded (p * q)) := by
  -- a factor of zero gives zero; otherwise mantissas multiply and exponents add
  cases hx with
  | zero =>
    rw [zero_mul, rounded_zero]
    cases hy <;> exact .zero
  | finite m e hm hlog =>
    cases hy with
    | zero =>
      rw [mul_zero, rounded_zero]
      exact .zero
    | finite m' e' hm' hlog' =>
      have hproduct : (m * 2 ^ e * (m' * 2 ^ e') : ℚ) = (m * m' : ℕ) * 2 ^ (e + e') := by
        rw [zpow_add₀ two_ne_zero, Nat.cast_mul, mul_mul_mul_comm]
      rw [hproduct] at h ⊢
      have hpos : 0 < m * m' := Nat.mul_pos hm hm'
      have hbits : 52 ≤ (m * m').log2 := by
        rw [Nat.le_log2 hpos.ne']
        exact (digits_of_log2 hlog).1.trans (Nat.le_mul_of_pos_right m hm')
      have hmod := h.resolve_left (mul_pos (by exact_mod_cast hpos) (two_zpow_pos _)).ne'
      exact stands_roundWithAccuracy (shows_exact _) hbits hmod

/-- The product of two doubles is the rounded product. -/
theorem HasValue.mul {a b : Float} (ha : HasValue a p) (hb : HasValue b q) (h : Usual (p * q)) :
    HasValue (a * b) (rounded (p * q)) := by
  have hproduct := Stands.mul ha hb h
  show Stands (unpack .binary64 (pack .binary64 (UnpackedFloat.mul .binary64 _ _))) _
  rwa [unpack_pack hproduct h.rounded]

/-! ## Counts -/

/-- Counts are neither too large nor too small. -/
theorem usual_natCast {n : Nat} (hn : n ≤ 2 ^ 64) : Usual n := by
  rcases Nat.eq_zero_or_pos n with rfl | hpos
  · exact Or.inl Nat.cast_zero
  · have hone : (1 : ℚ) ≤ n := by exact_mod_cast hpos
    have htop : (n : ℚ) ≤ 2 ^ 64 := by exact_mod_cast hn
    exact Or.inr ⟨le_trans (by norm_num) hone, htop.trans (by norm_num)⟩

/-- An integer becomes the nearest double: its digits are shifted into place and
rounded, and no count up to `2 ^ 64` is too large or too small for this. -/
theorem stands_ofNat {n : Nat} (hn : n ≤ 2 ^ 64) :
    Stands (UnpackedFloat.ofNat .binary64 n) (rounded n) := by
  rcases Nat.eq_zero_or_pos n with rfl | hpos
  · rw [Nat.cast_zero, rounded_zero]
    exact .zero
  · have hmod : Moderate ((n : ℚ) * 2 ^ (0 : ℤ)) := by
      rw [zpow_zero, mul_one]
      exact (usual_natCast hn).resolve_left (by exact_mod_cast hpos.ne')
    have hstands := stands_normalize hpos hmod .positive
    rwa [zpow_zero, mul_one] at hstands

/-- The double with these bits is one. -/
theorem hasValue_unit : HasValue (Float.ofBits 0x3FF0000000000000) 1 := by
  have hunpack : (Float.ofBits 0x3FF0000000000000).toModel.unpack =
      .finite .positive (2 ^ 52) (-52) (by decide) := rfl
  have hvalue : (1 : ℚ) = (2 ^ 52 : ℕ) * 2 ^ (-52 : ℤ) := by norm_num
  rw [HasValue, hunpack, hvalue]
  exact .finite _ _ _ Nat.log2_two_pow

/-- A word becomes the nearest double. -/
theorem hasValue_toFloat {n : Nat} (hn : n < 2 ^ 64) : HasValue n.toUInt64.toFloat (rounded n) := by
  have htoNat : n.toUInt64.toNat = n := by
    show n % 2 ^ 64 = n
    exact Nat.mod_eq_of_lt hn
  have hstands := stands_ofNat hn.le
  show Stands (unpack .binary64 (pack .binary64 (UnpackedFloat.ofNat .binary64 n.toUInt64.toNat))) _
  rw [htoNat, unpack_pack hstands (usual_natCast hn.le).rounded]
  exact hstands

/-- Counts with more digits than a double has are read as decimal numbers, which
comes to the same: the integer is shifted, and rounded once. -/
theorem stands_ofScientific {n : Nat} (hpos : 0 < n) (hn : n ≤ 2 ^ 64) :
    Stands (UnpackedFloat.ofScientific .binary64 n 0) (rounded n) := by
  -- a whole number is taken with its digits shifted up, and is rounded once
  have heq : UnpackedFloat.ofScientific .binary64 n 0 =
      roundWithAccuracy .binary64 .positive (n <<< 53) (-53) .exact := by
    unfold UnpackedFloat.ofScientific
    rw [dif_neg hpos.ne', if_neg (by decide), if_neg, if_pos (Int.le_refl 0)]
    · show roundWithAccuracy .binary64 .positive (n <<< 53 * 1) (-53 + 0) .exact = _
      rw [Nat.mul_one, Int.add_zero]
    · have hlog : (0 : ℤ) ≤ n.log2 := Int.natCast_nonneg _
      show ¬ (0 : ℤ) < -(2048 + n.log2)
      omega
  have hvalue : ((n <<< 53 : ℕ) : ℚ) * 2 ^ (-53 : ℤ) = n := by
    have hshift := shiftLeft_value n 53 0
    rwa [zpow_zero, mul_one] at hshift
  have hmod := (usual_natCast hn).resolve_left (by exact_mod_cast hpos.ne')
  have hbits : 52 ≤ (n <<< 53).log2 := le_log2_shiftLeft hpos (by omega)
  rw [heq]
  rw [← hvalue] at hmod ⊢
  exact stands_roundWithAccuracy (shows_exact _) hbits hmod

/-- A count is written as the nearest double, on both ways that there are to do
it: as a word that is converted, where it is a double exactly, and as a decimal
number else. -/
theorem hasValue_ofNat {n : Nat} (hn : n ≤ 2 ^ 64) : HasValue (Float.ofNat n) (rounded n) := by
  show HasValue (Float.ofScientific n false 0) _
  unfold Float.ofScientific
  split
  · -- a count that is a double exactly is multiplied by one
    next hexact =>
    have hself : rounded (n : ℚ) = n := rounded_natCast hexact.1.le
    have hcount := hasValue_toFloat (show n < 2 ^ 64 by omega)
    have hproduct := hcount.mul hasValue_unit (by rw [hself, mul_one]; exact usual_natCast hn)
    rw [mul_one, hself, hself] at hproduct
    rw [hself]
    exact hproduct
  · next hlarge =>
    have hstands := stands_ofScientific (show 0 < n by omega) hn
    show Stands (unpack .binary64 (pack .binary64 (UnpackedFloat.ofScientific .binary64 n 0))) _
    rwa [unpack_pack hstands (usual_natCast hn).rounded]

/-! ## The order -/

/-- A double with a value in the sense of the arithmetic is exactly this number,
also in the sense in which stored doubles are compared and printed. -/
theorem HasValue.exactly {a : Float} (h : HasValue a q) : Exactly a q := by
  have hstands : Stands (unpack .binary64 a.toModel.toBits.toBitVec) q := h
  show Denotes (unpack .binary64 a.toModel.toBits.toBitVec) q
  generalize hunpack : unpack .binary64 a.toModel.toBits.toBitVec = x at hstands
  cases hstands with
  | zero => exact .zero .positive
  | finite m e hm hlog =>
    obtain ⟨hcanonical, htop⟩ := canonical_unpack hunpack
    exact .finite .positive hm hcanonical htop

/-- Doubles are compared as what they stand for. -/
theorem HasValue.le {a b : Float} (ha : HasValue a p) (hb : HasValue b q) (h : p ≤ q) : a ≤ b :=
  (ha.exactly.le_iff hb.exactly).2 h

end GraphMeasures.Double
