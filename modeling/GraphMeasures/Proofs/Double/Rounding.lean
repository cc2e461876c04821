import GraphMeasures.Proofs.Double.Stored
import Mathlib

/-!
# GraphMeasures — how doubles are rounded

The mantissa of a result that has too many digits is shifted until 53 are left; two
further bits remember what has been shifted out (`Shows`). Rounding looks at these bits
only, and still gives the nearest double (`stands_roundWithAccuracy`), which is stored
without loss (`unpack_pack`). What is proved here is about zero and positive numbers
between `2 ^ (-200)` and `2 ^ 200` (`Usual`), which the ends of the range of doubles do
not touch.
-/

namespace GraphMeasures.Double

open Float.Model (Format UnpackedFloat)
open Float.Model.UnpackedFloat

variable {q x : ℚ}

/-! ## Mantissas -/

variable {em : ExtendedMantissa}

/-- A mantissa shows a number of which it is the integer part. Its two further bits tell
whether the rest is at least one half, and whether it is neither nothing nor one half. -/
inductive Shows : ExtendedMantissa → ℚ → Prop
  | exact (m : Nat) : Shows ⟨m, false, false⟩ m
  | below {m : Nat} {x : ℚ} (hlow : m < x) (hhigh : x < m + 1 / 2) : Shows ⟨m, false, true⟩ x
  | half (m : Nat) : Shows ⟨m, true, false⟩ (m + 1 / 2)
  | above {m : Nat} {x : ℚ} (hlow : m + 1 / 2 < x) (hhigh : x < m + 1) : Shows ⟨m, true, true⟩ x

/-- The mantissa is what is shown without what is behind the point. -/
theorem Shows.floor (h : Shows em x) : ⌊x⌋ = em.mantissa := by
  rw [Int.floor_eq_iff]
  cases h with
  | exact m | half m => push_cast; constructor <;> linarith
  | below hlow hhigh | above hlow hhigh => push_cast; constructor <;> linarith

/-- The bits are what rounding needs: one for the half, and one for whether
there is anything else. -/
theorem Shows.roundedMantissa (h : Shows em x) : (em.roundedMantissa : ℤ) = nearest x := by
  have hfloor := h.floor
  have hfract : Int.fract x = x - em.mantissa := by rw [Int.fract, hfloor, Int.cast_natCast]
  rw [nearest, hfloor, hfract]
  cases h with
  | exact m => rw [if_pos (by linarith)]; rfl
  | below hlow hhigh => rw [if_pos (by linarith)]; rfl
  | half m => rw [if_neg (by linarith), if_neg (by linarith)]; rfl
  | above hlow hhigh => rw [if_neg (by linarith), if_pos (by linarith)]; rfl

/-- Shifting by one digit halves what is shown. The digit that is shifted out
becomes the half, and the half before it is from then on part of the rest. -/
theorem Shows.shiftRightOne (h : Shows em x) : Shows em.shiftRightOne (x / 2) := by
  have hbit : ∀ m : Nat, m % 2 = 0 ∧ (m : ℚ) = 2 * (m / 2 : ℕ) ∨
      m % 2 = 1 ∧ (m : ℚ) = 1 + 2 * (m / 2 : ℕ) := by
    intro m
    have hm : (m : ℚ) = (m % 2 : ℕ) + 2 * (m / 2 : ℕ) := by
      exact_mod_cast (Nat.mod_add_div m 2).symm
    rcases Nat.mod_two_eq_zero_or_one m with hmod | hmod
    · exact Or.inl ⟨hmod, by rw [hm, hmod, Nat.cast_zero, zero_add]⟩
    · exact Or.inr ⟨hmod, by rw [hm, hmod, Nat.cast_one]⟩
  -- the digit that leaves the mantissa becomes the first bit, both bits become the second
  rw [ExtendedMantissa.shiftRightOne]
  cases h with
  | exact m =>
    -- nothing was shifted out before, so the number stays exact or becomes a half
    rcases hbit m with ⟨hmod, hm⟩ | ⟨hmod, hm⟩
    · rw [hmod, show (m : ℚ) / 2 = (m / 2 : ℕ) by linarith]
      exact .exact _
    · rw [hmod, show (m : ℚ) / 2 = (m / 2 : ℕ) + 1 / 2 by linarith]
      exact .half _
  | half m =>
    rcases hbit m with ⟨hmod, hm⟩ | ⟨hmod, hm⟩
    · rw [hmod]
      exact .below (by linarith) (by linarith)
    · rw [hmod]
      exact .above (by linarith) (by linarith)
  | @below m x hlow hhigh =>
    rcases hbit m with ⟨hmod, hm⟩ | ⟨hmod, hm⟩
    · rw [hmod]
      exact .below (by linarith) (by linarith)
    · rw [hmod]
      exact .above (by linarith) (by linarith)
  | @above m x hlow hhigh =>
    rcases hbit m with ⟨hmod, hm⟩ | ⟨hmod, hm⟩
    · rw [hmod]
      exact .below (by linarith) (by linarith)
    · rw [hmod]
      exact .above (by linarith) (by linarith)

/-- Shifting by several digits, one after the other. -/
theorem Shows.shiftRight (h : Shows em x) (k : Nat) : Shows (em >>> k) (x / 2 ^ k) := by
  show Shows (Nat.repeat ExtendedMantissa.shiftRightOne k em) _
  induction k with
  | zero => simpa [Nat.repeat] using h
  | succ k ih =>
    rw [pow_succ, ← div_div]
    exact ih.shiftRightOne

theorem shows_exact (m : Nat) : Shows (.ofMantissaAndAccuracy m .exact) m :=
  .exact m

/-- A quotient without its rest, with what the rest says: that there is none,
that it is less than a half, a half, or more. Nothing else of the rest is needed
to round. -/
theorem shows_quotient (a : Nat) {b : Nat} (hb : 0 < b) :
    Shows (.ofMantissaAndAccuracy (a / b) (accuracyOfFraction (a % b) b)) (a / b) := by
  have hpos : (0 : ℚ) < b := by exact_mod_cast hb
  have hquotient : (a / b : ℚ) = (a / b : ℕ) + (a % b : ℕ) / (b : ℚ) := by
    rw [eq_comm, ← eq_sub_iff_add_eq', div_eq_iff hpos.ne', sub_mul, div_mul_cancel₀ _ hpos.ne']
    have hsum : ((a % b : ℕ) : ℚ) + b * (a / b : ℕ) = a := by exact_mod_cast Nat.mod_add_div a b
    linarith
  have hlt : ((a % b : ℕ) : ℚ) / b < 1 := by
    rw [div_lt_one hpos]
    exact_mod_cast Nat.mod_lt a hb
  rw [hquotient, accuracyOfFraction]
  split_ifs with hrest
  · rw [hrest, Nat.cast_zero, zero_div, add_zero]
    exact shows_exact _
  · have hrestPos : (0 : ℚ) < (a % b : ℕ) / b :=
      div_pos (by exact_mod_cast Nat.pos_of_ne_zero hrest) hpos
    -- the rest is compared with one half
    rcases Nat.lt_trichotomy (2 * (a % b)) b with hcompare | hcompare | hcompare
    · have hhalf : ((a % b : ℕ) : ℚ) / b < 1 / 2 := by
        rw [div_lt_div_iff₀ hpos two_pos]
        exact_mod_cast (by omega : a % b * 2 < 1 * b)
      rw [Nat.compare_eq_lt.2 hcompare]
      exact .below (by linarith) (by linarith)
    · have hhalf : ((a % b : ℕ) : ℚ) / b = 1 / 2 := by
        rw [div_eq_div_iff hpos.ne' two_ne_zero]
        exact_mod_cast (by omega : a % b * 2 = 1 * b)
      rw [Nat.compare_eq_eq.2 hcompare, hhalf]
      exact .half _
    · have hhalf : 1 / 2 < ((a % b : ℕ) : ℚ) / b := by
        rw [div_lt_div_iff₀ two_pos hpos]
        exact_mod_cast (by omega : 1 * b < a % b * 2)
      rw [Nat.compare_eq_gt.2 hcompare]
      exact .above (by linarith) (by linarith)

/-! ## Rounding to a double -/

/-- An unpacked double that is zero, or positive with all of its digits, stands for a
number. -/
inductive Stands : UnpackedFloat → ℚ → Prop
  | zero : Stands (.zero .positive) 0
  | finite (m : Nat) (e : ℤ) (hm : 0 < m) (hlog : m.log2 = 52) :
      Stands (.finite .positive m e hm) (m * 2 ^ e)

/-- A number that is far from both ends of the range of doubles. -/
structure Moderate (q : ℚ) : Prop where
  lower : (2 : ℚ) ^ (-200 : ℤ) ≤ q
  upper : q ≤ 2 ^ (200 : ℤ)

theorem Moderate.pos (h : Moderate q) : 0 < q :=
  (two_zpow_pos _).trans_le h.lower

/-- The same said of the logarithm. -/
theorem Moderate.log_bounds (h : Moderate q) : -200 ≤ Int.log 2 q ∧ Int.log 2 q ≤ 200 := by
  constructor
  · exact (Int.zpow_le_iff_le_log one_lt_two h.pos).1 (by exact_mod_cast h.lower)
  · refine Int.lt_add_one_iff.1 ((Int.lt_zpow_iff_log_lt one_lt_two h.pos).1 ?_)
    exact_mod_cast h.upper.trans_lt (zpow_lt_zpow_right₀ one_lt_two (Int.lt_succ 200))

/-- Rounding does not bring a number out of bounds that are powers of two. -/
theorem Moderate.rounded (h : Moderate q) : Moderate (rounded q) where
  lower := two_zpow_le_rounded h.lower
  upper := rounded_le_two_zpow h.pos h.upper

/-- A number that is zero or in the middle of the range. -/
def Usual (q : ℚ) : Prop :=
  q = 0 ∨ Moderate q

/-- And it leaves zero where it is. -/
theorem Usual.rounded (h : Usual q) : Usual (rounded q) :=
  h.imp (fun hzero => by rw [hzero, rounded_zero]) Moderate.rounded

/-- The last digit that a double keeps, as long as the number is not below the
smallest normal one. -/
theorem targetExponent_eq {m : Nat} {e : ℤ} (hmin : -1022 ≤ m.log2 + e) :
    Format.binary64.targetExponent (Float.Model.totalExponent m e) = m.log2 + e - 52 := by
  simp only [Format.targetExponent, Float.Model.totalExponent, Format.mantissaBits,
    Format.minExponent]
  omega

/-- With digits enough, those behind the last one that is kept are shifted
out. -/
theorem shiftToTargetExponent_eq {m : Nat} {e : ℤ} (accuracy : Accuracy) (hbits : 52 ≤ m.log2)
    (hmin : -1022 ≤ m.log2 + e) :
    shiftToTargetExponent .binary64 m e accuracy =
      (ExtendedMantissa.ofMantissaAndAccuracy m accuracy >>> (m.log2 - 52),
        (m.log2 : ℤ) + e - 52) := by
  have hshift : (m.log2 + e - 52 - e : ℤ).toNat = m.log2 - 52 := by omega
  unfold shiftToTargetExponent shiftToExponent
  rw [targetExponent_eq hmin]
  dsimp only
  rw [hshift]
  refine Prod.ext rfl ?_
  show e + ((m.log2 - 52 : ℕ) : ℤ) = _
  omega

/-- With just as many digits as are kept, nothing is shifted. -/
theorem shiftToTargetExponent_digits {r : Nat} {t : ℤ} (hlog : r.log2 = 52) (ht : -1074 ≤ t) :
    shiftToTargetExponent .binary64 r t .exact = (⟨r, false, false⟩, t) := by
  rw [shiftToTargetExponent_eq .exact hlog.ge (by omega), hlog]
  refine Prod.ext rfl ?_
  show ((52 : ℕ) : ℤ) + t - 52 = t
  omega

/-- With one digit too many, which rounding up may have made, one is shifted
out, and it is a zero. -/
theorem shiftToTargetExponent_carry {t : ℤ} (ht : -1074 ≤ t) :
    shiftToTargetExponent .binary64 (2 ^ 53) t .exact = (⟨2 ^ 52, false, false⟩, t + 1) := by
  have hlog : (2 ^ 53).log2 = 53 := Nat.log2_two_pow
  rw [shiftToTargetExponent_eq .exact (by omega) (by omega), hlog]
  refine Prod.ext rfl ?_
  show ((53 : ℕ) : ℤ) + t - 52 = t + 1
  omega

/-- What is shown is at least its mantissa, and less than one above it. -/
theorem Shows.bounds {m : Nat} {accuracy : Accuracy} {y : ℚ}
    (h : Shows (.ofMantissaAndAccuracy m accuracy) y) : (m : ℚ) ≤ y ∧ y < m + 1 := by
  have hmantissa : (ExtendedMantissa.ofMantissaAndAccuracy m accuracy).mantissa = m := by
    rcases accuracy with _ | _ | _ | _ <;> rfl
  have hfloor := Int.floor_eq_iff.1 h.floor
  rwa [hmantissa, Int.cast_natCast] at hfloor

/-- What is shown has as many binary digits before the point as the mantissa.
The part that was cut off is less than one unit of it, so it does not reach the
next power. -/
theorem Shows.log_mul {m : Nat} {e : ℤ} {accuracy : Accuracy} {y : ℚ}
    (h : Shows (.ofMantissaAndAccuracy m accuracy) y) (hm : m ≠ 0) :
    Int.log 2 (y * 2 ^ e) = m.log2 + e := by
  -- what is shown is at most one above its mantissa, so no power of two lies between
  obtain ⟨hbelow, habove⟩ := h.bounds
  have hlow : (2 : ℚ) ^ m.log2 ≤ m := by exact_mod_cast Nat.log2_self_le hm
  have hhigh : (m : ℚ) + 1 ≤ 2 ^ (m.log2 + 1) := by exact_mod_cast Nat.lt_log2_self
  have hpow := two_zpow_pos e
  have hpos : 0 < y := lt_of_lt_of_le (by positivity) (hlow.trans hbelow)
  rw [log_eq_iff (mul_pos hpos hpow)]
  constructor
  · rw [zpow_add₀ two_ne_zero, zpow_natCast]
    exact mul_le_mul_of_nonneg_right (hlow.trans hbelow) hpow.le
  · rw [show (m.log2 : ℤ) + e + 1 = (m.log2 + 1 : ℕ) + e by push_cast; ring,
      zpow_add₀ two_ne_zero, zpow_natCast]
    exact mul_lt_mul_of_pos_right (habove.trans_le hhigh) hpow

/-- The digits that are left are rounded, and shifted once more if that has made
one too many. -/
theorem roundWithAccuracy_eq {s : Sign} {m : Nat} {e e₁ e₂ : ℤ} {accuracy : Accuracy}
    {first second : ExtendedMantissa}
    (hfirst : shiftToTargetExponent .binary64 m e accuracy = (first, e₁))
    (hsecond : shiftToTargetExponent .binary64 first.roundedMantissa e₁ .exact = (second, e₂))
    (hpos : 0 < second.mantissa) :
    roundWithAccuracy .binary64 s m e accuracy = .finite s second.mantissa e₂ hpos := by
  unfold roundWithAccuracy
  rw [hfirst]
  dsimp only
  rw [hsecond]
  exact dif_neg hpos.ne'

/-- An unpacked double with a sign and all of its digits, of a given size. -/
inductive Full (s : Sign) (q : ℚ) : UnpackedFloat → Prop
  | intro (m : Nat) (e : ℤ) (hm : 0 < m) (hlog : m.log2 = 52) (he : -1074 ≤ e)
      (hvalue : (m * 2 ^ e : ℚ) = q) : Full s q (.finite s m e hm)

/-- With the positive sign, what has all its digits stands for its number. -/
theorem Full.stands {x : UnpackedFloat} (h : Full .positive q x) : Stands x q := by
  obtain ⟨m, e, hm, hlog, -, rfl⟩ := h
  exact .finite m e hm hlog

/-- Rounding gives the nearest double, unless there are too few digits for it.
After the first shift the mantissa has 53 digits and shows what is to be
rounded; the nearest integer has as many, or one more, and then it is a power of
two. -/
theorem full_roundWithAccuracy (s : Sign) {m : Nat} {e : ℤ} {accuracy : Accuracy} {y : ℚ}
    (hshows : Shows (.ofMantissaAndAccuracy m accuracy) y) (hbits : 52 ≤ m.log2)
    (hmin : -1022 ≤ m.log2 + e) :
    Full s (rounded (y * 2 ^ e)) (roundWithAccuracy .binary64 s m e accuracy) := by
  have hm : m ≠ 0 := by
    rintro rfl
    simp at hbits
  have hpos : 0 < y * 2 ^ e := by
    refine mul_pos (lt_of_lt_of_le ?_ hshows.bounds.1) (two_zpow_pos e)
    exact_mod_cast Nat.pos_of_ne_zero hm
  have hlog := hshows.log_mul (e := e) hm
  have hdigit : lastDigit (y * 2 ^ e) = m.log2 + e - 52 := by rw [lastDigit, hlog]
  have hscaled : y * 2 ^ e / 2 ^ lastDigit (y * 2 ^ e) = y / 2 ^ (m.log2 - 52) := by
    rw [hdigit, mul_div_assoc, ← zpow_sub₀ two_ne_zero, div_eq_mul_inv, ← zpow_natCast, ← zpow_neg]
    congr 2
    omega
  -- the first shift leaves 53 digits to be rounded
  have hnearest := (hshows.shiftRight (m.log2 - 52)).roundedMantissa
  have hrange := nearest_digits hpos
  rw [hscaled, ← hnearest] at hrange
  have hvalue : rounded (y * 2 ^ e) =
      ((ExtendedMantissa.ofMantissaAndAccuracy m accuracy >>> (m.log2 - 52)).roundedMantissa : ℚ) *
        2 ^ ((m.log2 : ℤ) + e - 52) := by
    rw [rounded, hscaled, ← hnearest, hdigit, Int.cast_natCast]
  have hfirst := shiftToTargetExponent_eq (e := e) accuracy hbits hmin
  rw [hvalue]
  generalize ExtendedMantissa.ofMantissaAndAccuracy m accuracy >>> (m.log2 - 52) = first
    at hfirst hrange
  generalize hr : first.roundedMantissa = r at hrange
  -- rounding up may have made one more digit
  obtain ⟨hlow, hhigh⟩ := hrange
  have hlow : 2 ^ 52 ≤ r := by exact_mod_cast hlow
  have hhigh : r ≤ 2 ^ 53 := by exact_mod_cast hhigh
  rcases hhigh.lt_or_eq with hlt | rfl
  · -- it has not, so the second shift changes nothing
    have hlog2 : r.log2 = 52 := (Nat.log2_eq_iff (by omega)).2 ⟨hlow, hlt⟩
    have hsecond := shiftToTargetExponent_digits (t := m.log2 + e - 52) hlog2 (by omega)
    have hpos : 0 < r := by omega
    subst hr
    rw [roundWithAccuracy_eq hfirst hsecond hpos]
    exact .intro _ _ _ hlog2 (by omega) rfl
  · -- it has, and the digit that the second shift drops is zero
    have hsecond := shiftToTargetExponent_carry (t := m.log2 + e - 52) (by omega)
    rw [← hr] at hsecond
    rw [roundWithAccuracy_eq hfirst hsecond (by decide)]
    refine .intro _ _ _ Nat.log2_two_pow (by omega) ?_
    rw [zpow_add_one₀ two_ne_zero]
    push_cast
    ring

/-- Rounding gives the nearest double, of numbers that are far from both ends of
the range. -/
theorem stands_roundWithAccuracy {m : Nat} {e : ℤ} {accuracy : Accuracy} {y : ℚ}
    (hshows : Shows (.ofMantissaAndAccuracy m accuracy) y) (hbits : 52 ≤ m.log2)
    (hmod : Moderate (y * 2 ^ e)) :
    Stands (roundWithAccuracy .binary64 .positive m e accuracy) (rounded (y * 2 ^ e)) := by
  have hm : m ≠ 0 := by
    rintro rfl
    simp at hbits
  have hbounds := hmod.log_bounds
  rw [hshows.log_mul hm] at hbounds
  exact (full_roundWithAccuracy .positive hshows hbits (by omega)).stands

/-! ## Doubles -/

/-- What stands for a number that is not too large and not too small is a
double. -/
theorem Stands.denotes {x : UnpackedFloat} (h : Stands x q) (hq : Usual q) : Denotes x q := by
  cases h with
  | zero => exact .zero .positive
  | finite m e hm hlog =>
    have hmod : Moderate (m * 2 ^ e) := by
      refine hq.resolve_left (ne_of_gt ?_)
      exact mul_pos (by exact_mod_cast hm) (two_zpow_pos e)
    have hbounds := hmod.log_bounds
    rw [(shows_exact m).log_mul hm.ne', hlog] at hbounds
    exact .finite .positive hm (canonical_of_log2 hlog (by omega)) (by omega)

/-- A double that is not too large and not too small is stored without loss. -/
theorem unpack_pack {x : UnpackedFloat} (h : Stands x q) (hq : Usual q) :
    unpack .binary64 (pack .binary64 x) = x :=
  (h.denotes hq).unpack_pack

end GraphMeasures.Double
