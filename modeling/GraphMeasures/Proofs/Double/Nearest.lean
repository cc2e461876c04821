import Mathlib.Algebra.Order.Floor.Ring
import Mathlib.Data.Int.Log
import Mathlib.Data.Rat.Floor
import Mathlib.Tactic.Linarith
import Mathlib.Tactic.NormNum
import Mathlib.Tactic.Ring

/-!
# GraphMeasures — the nearest double

A double has 53 binary digits. Of the numbers with so many digits, `rounded` is the
one that is nearest, and of two that are as near the one with an even last digit. It
keeps the order (`rounded_mono`), and counts below `2 ^ 53` as well as powers of two
as they are (`rounded_natCast`, `rounded_two_zpow`). Nothing here bounds the exponent.
-/

namespace GraphMeasures.Double

variable {p q : ℚ}

/-! ## The nearest integer -/

/-- The nearest integer, and of two that are as near the even one. -/
def nearest (q : ℚ) : ℤ :=
  if 2 * Int.fract q < 1 then ⌊q⌋
  else if 1 < 2 * Int.fract q then ⌊q⌋ + 1
  else ⌊q⌋ + ⌊q⌋ % 2

/-- The nearest integer is not below the number without its digits behind the
point. -/
theorem floor_le_nearest (q : ℚ) : ⌊q⌋ ≤ nearest q := by
  unfold nearest
  split_ifs <;> omega

theorem nearest_le_floor_add_one (q : ℚ) : nearest q ≤ ⌊q⌋ + 1 := by
  unfold nearest
  split_ifs <;> omega

theorem nearest_intCast (k : ℤ) : nearest k = k := by
  simp [nearest]

/-- A larger number has no smaller nearest integer. Between two integers, the
one number may be rounded up only if the other is; halves go to the even one in
both cases. -/
theorem nearest_mono (h : p ≤ q) : nearest p ≤ nearest q := by
  rcases (Int.floor_mono h).lt_or_eq with hlt | heq
  · exact (nearest_le_floor_add_one p).trans (le_trans hlt (floor_le_nearest q))
  · -- above the same integer the larger number is not rounded down when the other is not
    have hfract : Int.fract p ≤ Int.fract q := by
      rw [Int.fract, Int.fract, heq]
      linarith
    by_cases hdown : 2 * Int.fract q < 1
    · rw [nearest, nearest, if_pos hdown, if_pos (by linarith), heq]
    by_cases hup : 1 < 2 * Int.fract q
    · have hq : nearest q = ⌊q⌋ + 1 := by rw [nearest, if_neg hdown, if_pos hup]
      rw [hq, ← heq]
      exact nearest_le_floor_add_one p
    by_cases hbelow : 2 * Int.fract p < 1
    · have hp : nearest p = ⌊p⌋ := if_pos hbelow
      rw [hp, heq]
      exact floor_le_nearest q
    · -- both lie in the middle
      rw [nearest, nearest, if_neg hdown, if_neg hup, if_neg hbelow, if_neg (by linarith), heq]

/-- Integers below a number are not above its nearest integer. -/
theorem le_nearest_of_intCast_le {k : ℤ} (h : (k : ℚ) ≤ q) : k ≤ nearest q := by
  rw [← nearest_intCast k]
  exact nearest_mono h

/-- Integers above a number are not below its nearest integer. -/
theorem nearest_le_of_le_intCast {k : ℤ} (h : q ≤ (k : ℚ)) : nearest q ≤ k := by
  rw [← nearest_intCast k]
  exact nearest_mono h

/-! ## The nearest double -/

/-- The exponent of the last digit of the doubles near a number. -/
def lastDigit (q : ℚ) : ℤ :=
  Int.log 2 q - 52

/-- The nearest number with 53 binary digits. -/
def rounded (q : ℚ) : ℚ :=
  nearest (q / 2 ^ lastDigit q) * 2 ^ lastDigit q

theorem two_zpow_pos (e : ℤ) : (0 : ℚ) < 2 ^ e :=
  zpow_pos two_pos e

theorem two_zpow_log_le (hq : 0 < q) : (2 : ℚ) ^ Int.log 2 q ≤ q := by
  exact_mod_cast Int.zpow_log_le_self one_lt_two hq

theorem lt_two_zpow_log (q : ℚ) : q < (2 : ℚ) ^ (Int.log 2 q + 1) := by
  exact_mod_cast Int.lt_zpow_succ_log_self one_lt_two q

/-- The two bounds determine the logarithm. -/
theorem log_eq_iff (hq : 0 < q) {e : ℤ} :
    Int.log 2 q = e ↔ (2 : ℚ) ^ e ≤ q ∧ q < 2 ^ (e + 1) := by
  have hle : (2 : ℚ) ^ e ≤ q ↔ e ≤ Int.log 2 q := by
    exact_mod_cast Int.zpow_le_iff_le_log one_lt_two hq
  have hlt : q < (2 : ℚ) ^ (e + 1) ↔ Int.log 2 q < e + 1 := by
    exact_mod_cast Int.lt_zpow_iff_log_lt one_lt_two hq
  rw [hle, hlt]
  omega

/-- Before the last digit there are 52 others. -/
theorem digits_le (hq : 0 < q) : (2 : ℚ) ^ 52 ≤ q / 2 ^ lastDigit q := by
  rw [le_div_iff₀ (two_zpow_pos _), ← zpow_natCast, ← zpow_add₀ two_ne_zero]
  refine le_of_eq_of_le (congrArg _ ?_) (two_zpow_log_le hq)
  unfold lastDigit
  push_cast
  ring

/-- And no more: a number has 53 digits, the last one counted. -/
theorem lt_digits (q : ℚ) : q / 2 ^ lastDigit q < (2 : ℚ) ^ 53 := by
  rw [div_lt_iff₀ (two_zpow_pos _), ← zpow_natCast, ← zpow_add₀ two_ne_zero]
  refine lt_of_lt_of_eq (lt_two_zpow_log q) (congrArg _ ?_)
  unfold lastDigit
  push_cast
  ring

/-- Rounded to its last digit, a number has as many digits, or it is the next
power of two. -/
theorem nearest_digits (hq : 0 < q) :
    2 ^ 52 ≤ nearest (q / 2 ^ lastDigit q) ∧ nearest (q / 2 ^ lastDigit q) ≤ 2 ^ 53 := by
  constructor
  · exact le_nearest_of_intCast_le (by exact_mod_cast digits_le hq)
  · exact nearest_le_of_le_intCast (by exact_mod_cast (lt_digits q).le)

/-- A number whose digits are enough for it is a double. -/
theorem rounded_eq_self {k : ℤ} (h : q = k * 2 ^ lastDigit q) : rounded q = q := by
  have hdigits : q / 2 ^ lastDigit q = k := by
    rw [div_eq_iff (two_zpow_pos _).ne']
    exact h
  rw [rounded, hdigits, nearest_intCast]
  exact h.symm

/-- Powers of two are doubles, so rounding leaves them as they are; they
separate the numbers whose last digits stand in different places. -/
theorem rounded_two_zpow (e : ℤ) : rounded (2 ^ e) = 2 ^ e := by
  have hlog : Int.log 2 ((2 : ℚ) ^ e) = e :=
    (log_eq_iff (two_zpow_pos e)).2 ⟨le_rfl, zpow_lt_zpow_right₀ one_lt_two (Int.lt_succ e)⟩
  have hdigits : (2 : ℚ) ^ e = ((2 ^ 52 : ℤ) : ℚ) * 2 ^ lastDigit ((2 : ℚ) ^ e) := by
    rw [lastDigit, hlog, Int.cast_pow, Int.cast_ofNat, ← zpow_natCast, ← zpow_add₀ two_ne_zero]
    congr 1
    push_cast
    ring
  exact rounded_eq_self hdigits

/-- Rounding keeps the order. Numbers with the same logarithm are rounded at the
same digit; between numbers with different ones there is a power of two, at
which both stop. -/
theorem rounded_mono (hp : 0 < p) (h : p ≤ q) : rounded p ≤ rounded q := by
  have hq : 0 < q := hp.trans_le h
  have hlog : Int.log 2 p ≤ Int.log 2 q := Int.log_mono_right hp h
  rcases hlog.lt_or_eq with hlt | heq
  · -- a power of two lies between the two numbers
    have hup : rounded p ≤ 2 ^ (Int.log 2 p + 1) := by
      have hle : (nearest (p / 2 ^ lastDigit p) : ℚ) ≤ 2 ^ 53 := by
        exact_mod_cast (nearest_digits hp).2
      calc rounded p ≤ 2 ^ 53 * 2 ^ lastDigit p :=
            mul_le_mul_of_nonneg_right hle (two_zpow_pos _).le
        _ = 2 ^ (Int.log 2 p + 1) := by
            rw [← zpow_natCast, ← zpow_add₀ two_ne_zero, lastDigit]
            congr 1
            push_cast
            ring
    have hdown : 2 ^ Int.log 2 q ≤ rounded q := by
      have hle : (2 : ℚ) ^ 52 ≤ nearest (q / 2 ^ lastDigit q) := by
        exact_mod_cast (nearest_digits hq).1
      calc (2 : ℚ) ^ Int.log 2 q = 2 ^ 52 * 2 ^ lastDigit q := by
            rw [← zpow_natCast, ← zpow_add₀ two_ne_zero, lastDigit]
            congr 1
            push_cast
            ring
        _ ≤ rounded q := mul_le_mul_of_nonneg_right hle (two_zpow_pos _).le
    exact hup.trans ((zpow_le_zpow_right₀ one_le_two hlt).trans hdown)
  · -- both have their last digit in the same place
    have hdigit : lastDigit p = lastDigit q := by rw [lastDigit, lastDigit, heq]
    have hscaled : p / 2 ^ lastDigit q ≤ q / 2 ^ lastDigit q :=
      div_le_div_of_nonneg_right h (two_zpow_pos _).le
    rw [rounded, rounded, hdigit]
    refine mul_le_mul_of_nonneg_right ?_ (two_zpow_pos _).le
    exact_mod_cast nearest_mono hscaled

/-- Powers of two that bound a number bound what it is rounded to. -/
theorem two_zpow_le_rounded {e : ℤ} (h : 2 ^ e ≤ q) : 2 ^ e ≤ rounded q := by
  rw [← rounded_two_zpow e]
  exact rounded_mono (two_zpow_pos e) h

theorem rounded_le_two_zpow {e : ℤ} (hq : 0 < q) (h : q ≤ 2 ^ e) : rounded q ≤ 2 ^ e := by
  rw [← rounded_two_zpow e]
  exact rounded_mono hq h

theorem rounded_zero : rounded 0 = 0 := by
  rw [rounded, zero_div, show nearest 0 = 0 from nearest_intCast 0, Int.cast_zero, zero_mul]

/-- Counts that have enough digits are doubles. The last of them has one digit
too many, but it is a power of two. -/
theorem rounded_natCast {k : Nat} (hk : k ≤ 2 ^ 53) : rounded k = k := by
  rcases Nat.eq_zero_or_pos k with rfl | hpos
  · exact rounded_zero
  rcases hk.lt_or_eq with hlt | rfl
  · have hq : (0 : ℚ) < k := by exact_mod_cast hpos
    -- the place of the last digit is at the point or behind it
    have hdigit : lastDigit (k : ℚ) ≤ 0 := by
      have hlog : Int.log 2 (k : ℚ) < 53 :=
        (Int.lt_zpow_iff_log_lt one_lt_two hq).1 (by exact_mod_cast hlt)
      unfold lastDigit
      omega
    obtain ⟨d, hd⟩ := Int.eq_ofNat_of_zero_le (Int.neg_nonneg_of_nonpos hdigit)
    refine rounded_eq_self (k := k * 2 ^ d) ?_
    rw [show lastDigit (k : ℚ) = -(d : ℤ) by omega]
    push_cast
    rw [mul_assoc, ← zpow_natCast, ← zpow_add₀ two_ne_zero, add_neg_cancel, zpow_zero, mul_one]
  · exact_mod_cast rounded_two_zpow 53

/-- The first count that has too many digits is rounded down: it is halfway
between two doubles, and the lower one is even. -/
theorem rounded_two_pow_add_one : rounded (2 ^ 53 + 1) = 2 ^ 53 := by
  have hlog : Int.log 2 (2 ^ 53 + 1 : ℚ) = 53 := (log_eq_iff (by norm_num)).2 (by norm_num)
  have hfloor : ⌊((2 ^ 53 + 1) / 2 : ℚ)⌋ = 2 ^ 52 := Int.floor_eq_iff.2 (by norm_num)
  have hfract : 2 * Int.fract ((2 ^ 53 + 1) / 2 : ℚ) = 1 := by
    rw [Int.fract, hfloor]
    norm_num
  -- it lies in the middle, and the lower neighbour is even
  have hnearest : nearest ((2 ^ 53 + 1) / 2 : ℚ) = 2 ^ 52 := by
    rw [nearest, hfract, if_neg (lt_irrefl 1), if_neg (lt_irrefl 1), hfloor]
    norm_num
  rw [rounded, lastDigit, hlog, show (53 - 52 : ℤ) = 1 from rfl, zpow_one, hnearest]
  norm_num

/-- Other exponents make no difference, since the exponents of doubles are taken
to have no bounds here. Where they do, is said where this is used. -/
theorem rounded_mul_two_zpow (hq : 0 < q) (k : ℤ) : rounded (q * 2 ^ k) = rounded q * 2 ^ k := by
  have hpow := two_zpow_pos k
  have hlog : Int.log 2 (q * 2 ^ k) = Int.log 2 q + k := by
    rw [log_eq_iff (mul_pos hq hpow)]
    constructor
    · rw [zpow_add₀ two_ne_zero]
      exact mul_le_mul_of_nonneg_right (two_zpow_log_le hq) hpow.le
    · rw [add_right_comm, zpow_add₀ two_ne_zero]
      exact mul_lt_mul_of_pos_right (lt_two_zpow_log q) hpow
  have hdigit : lastDigit (q * 2 ^ k) = lastDigit q + k := by
    rw [lastDigit, lastDigit, hlog]
    ring
  rw [rounded, rounded, hdigit, zpow_add₀ two_ne_zero, mul_div_mul_right _ _ hpow.ne', mul_assoc]

end GraphMeasures.Double
