import GraphMeasures.Proofs.Double.Arithmetic

/-!
# GraphMeasures — means of shares

A **share** is a double for the quotient of two counts: it is zero or not too small, and
not above some power of two. Each step of a sum of shares can round up. Still a sum of
shares up to one is never above their number: the numbers up to `2 ^ 53` are doubles
themselves, and a sum that has come so far stays where it is. So the mean is not above
one either, and likewise for other powers of two (`exists_mean`).
-/

namespace GraphMeasures.Double

variable {a b : Float} {top k : Nat}

/-- A double for a number that is zero or not too small, and not above a bound. -/
def UpTo (bound : ℚ) (x : Float) : Prop :=
  ∃ q, HasValue x q ∧ (q = 0 ∨ 2 ^ (-64 : ℤ) ≤ q) ∧ q ≤ bound

/-! ## Sums -/

theorem nonneg_of_zero_or {e : ℤ} {q : ℚ} (h : q = 0 ∨ 2 ^ e ≤ q) : 0 ≤ q := by
  rcases h with rfl | h
  · exact le_rfl
  · exact (two_zpow_pos e).le.trans h

/-- A count with one more is the next one, as long as it has enough digits.
Beyond that the sum is rounded back to where it was, so counts stand still there
and do not go down. -/
theorem rounded_min_add_one (k : Nat) :
    rounded ((min k (2 ^ 53) + 1 : ℕ) : ℚ) = (min (k + 1) (2 ^ 53) : ℕ) := by
  rcases Nat.lt_or_ge k (2 ^ 53) with hk | hk
  · rw [Nat.min_eq_left hk.le, Nat.min_eq_left hk, rounded_natCast hk]
  · rw [Nat.min_eq_right hk, Nat.min_eq_right (hk.trans (Nat.le_succ k))]
    exact_mod_cast rounded_two_pow_add_one

/-- One more share. The bound is a count of shares that stands still where
doubles have no more digits for it, and adding is monotone, so the rounded sum
is below the rounded bound. -/
theorem UpTo.add (htop : top ≤ 64) (ha : UpTo ((min k (2 ^ 53) : ℕ) * 2 ^ (top : ℤ)) a)
    (hb : UpTo (2 ^ (top : ℤ)) b) :
    UpTo ((min (k + 1) (2 ^ 53) : ℕ) * 2 ^ (top : ℤ)) (a + b) := by
  obtain ⟨p, hp, hplow, hphigh⟩ := ha
  obtain ⟨q, hq, hqlow, hqhigh⟩ := hb
  -- of two summands that are zero or not too small, one that is not zero is enough
  have hlow : p + q = 0 ∨ 2 ^ (-64 : ℤ) ≤ p + q := by
    rcases hplow with rfl | hplow
    · rwa [zero_add]
    · exact Or.inr (hplow.trans (le_add_of_nonneg_right (nonneg_of_zero_or hqlow)))
  have hhigh : p + q ≤ ((min k (2 ^ 53) + 1 : ℕ) : ℚ) * 2 ^ (top : ℤ) := by
    rw [Nat.cast_add_one, add_one_mul]
    exact add_le_add hphigh hqhigh
  have husual : Usual (p + q) := by
    refine hlow.imp_right fun hlow => ⟨le_trans (by norm_num) hlow, hhigh.trans ?_⟩
    have hcount : ((min k (2 ^ 53) + 1 : ℕ) : ℚ) ≤ 2 ^ 54 := by
      exact_mod_cast (by omega : min k (2 ^ 53) + 1 ≤ 2 ^ 54)
    have hpow : (2 : ℚ) ^ (top : ℤ) ≤ 2 ^ (64 : ℤ) := zpow_le_zpow_right₀ one_le_two (by omega)
    calc ((min k (2 ^ 53) + 1 : ℕ) : ℚ) * 2 ^ (top : ℤ) ≤ 2 ^ 54 * 2 ^ (64 : ℤ) :=
          mul_le_mul hcount hpow (two_zpow_pos _).le (by norm_num)
      _ ≤ 2 ^ (200 : ℤ) := by norm_num
  refine ⟨_, hp.add hq husual, ?_, ?_⟩
  · exact hlow.imp (fun hzero => by rw [hzero, rounded_zero]) two_zpow_le_rounded
  · -- one multiple more bounds the exact sum, and it is rounded to the new bound
    rcases hlow with hzero | hlow
    · rw [hzero, rounded_zero]
      positivity
    · calc rounded (p + q) ≤ rounded (((min k (2 ^ 53) + 1 : ℕ) : ℚ) * 2 ^ (top : ℤ)) :=
            rounded_mono ((two_zpow_pos _).trans_le hlow) hhigh
        _ = (min (k + 1) (2 ^ 53) : ℕ) * 2 ^ (top : ℤ) := by
            rw [rounded_mul_two_zpow (by positivity), rounded_min_add_one]

/-- All shares, added one after the other from the left. As each of them is at
most the unit, the sum is at most their number, and rounding cannot take it
beyond, because numbers of this kind are doubles up to `2 ^ 53`. -/
theorem UpTo.sum (htop : top ≤ 64) {shares : List Float}
    (hshares : ∀ x ∈ shares, UpTo (2 ^ (top : ℤ)) x)
    (ha : UpTo ((min k (2 ^ 53) : ℕ) * 2 ^ (top : ℤ)) a) :
    UpTo ((min (k + shares.length) (2 ^ 53) : ℕ) * 2 ^ (top : ℤ)) (shares.foldl (· + ·) a) := by
  induction shares generalizing k a with
  | nil => exact ha
  | cons share shares ih =>
    obtain ⟨hshare, hshares⟩ := List.forall_mem_cons.1 hshares
    rw [List.length_cons, ← Nat.add_assoc, Nat.add_right_comm]
    exact ih hshares (ha.add htop hshare)

/-! ## Quotients by counts -/

theorem hasValue_zero : HasValue (Float.ofNat 0) 0 := by
  have hvalue := hasValue_ofNat (show 0 ≤ 2 ^ 64 by omega)
  rwa [Nat.cast_zero, rounded_zero] at hvalue

theorem hasValue_one : HasValue (Float.ofNat 1) 1 := by
  have hvalue := hasValue_ofNat (show 1 ≤ 2 ^ 64 by omega)
  rwa [rounded_natCast (by omega), Nat.cast_one] at hvalue

/-- A count that is not zero becomes a number between one and the largest count.
Rounding is monotone, and both bounds are doubles. -/
theorem rounded_count_bounds {n : Nat} (hpos : 0 < n) (hn : n ≤ 2 ^ 64) :
    1 ≤ rounded (n : ℚ) ∧ rounded (n : ℚ) ≤ 2 ^ (64 : ℤ) := by
  constructor
  · have hone : (2 : ℚ) ^ (0 : ℤ) ≤ n := by exact_mod_cast hpos
    exact_mod_cast two_zpow_le_rounded hone
  · exact rounded_le_two_zpow (by exact_mod_cast hpos) (by exact_mod_cast hn)

/-- A number that is zero or not too small is divided by a count. The quotient
is not too small either, so it is not rounded down to nothing, and it is not
above the bound that it has before it is rounded, since this is a double. -/
theorem HasValue.div_count {p : ℚ} {e : ℤ} {n : Nat} (ha : HasValue a p)
    (hlow : p = 0 ∨ 2 ^ e ≤ p) (he : -136 ≤ e) (hpos : 0 < n) (hn : n ≤ 2 ^ 64) {t : ℤ}
    (ht : t ≤ 200) (hhigh : p ≤ rounded n * 2 ^ t) :
    ∃ q, HasValue (a / Float.ofNat n) q ∧ (q = 0 ∨ 2 ^ (e - 64) ≤ q) ∧ q ≤ 2 ^ t := by
  obtain ⟨hone, hcount⟩ := rounded_count_bounds hpos hn
  have hcount_pos : 0 < rounded (n : ℚ) := one_pos.trans_le hone
  have hle : p / rounded (n : ℚ) ≤ 2 ^ t := by
    rw [div_le_iff₀ hcount_pos, mul_comm]
    exact hhigh
  rcases hlow with rfl | hlow
  · have hvalue := ha.div (hasValue_ofNat hn) hcount_pos.ne' (Or.inl (zero_div _))
    rw [zero_div, rounded_zero] at hvalue
    exact ⟨0, hvalue, Or.inl rfl, (two_zpow_pos t).le⟩
  · have hquotient : 2 ^ (e - 64) ≤ p / rounded (n : ℚ) := by
      rw [le_div_iff₀ hcount_pos]
      calc (2 : ℚ) ^ (e - 64) * rounded (n : ℚ) ≤ 2 ^ (e - 64) * 2 ^ (64 : ℤ) :=
            mul_le_mul_of_nonneg_left hcount (two_zpow_pos _).le
        _ = 2 ^ e := by rw [← zpow_add₀ two_ne_zero, sub_add_cancel]
        _ ≤ p := hlow
    have hmoderate : Moderate (p / rounded (n : ℚ)) :=
      ⟨(zpow_le_zpow_right₀ one_le_two (by omega)).trans hquotient,
        hle.trans (zpow_le_zpow_right₀ one_le_two ht)⟩
    exact ⟨_, ha.div (hasValue_ofNat hn) hcount_pos.ne' (Or.inr hmoderate),
      Or.inr (two_zpow_le_rounded hquotient), rounded_le_two_zpow hmoderate.pos hle⟩

/-- A quotient of counts is a share: not below zero, and not above the power of
two that bounds it before rounding, since that power is itself a double and
rounding is monotone. -/
theorem upTo_quotient {m n : Nat} (hm : m ≤ 2 ^ 64) (hpos : 0 < n) (hn : n ≤ 2 ^ 64)
    (htop : top ≤ 64) (hle : m ≤ n * 2 ^ top) :
    UpTo (2 ^ (top : ℤ)) (Float.ofNat m / Float.ofNat n) := by
  have hlow : rounded (m : ℚ) = 0 ∨ 2 ^ (0 : ℤ) ≤ rounded (m : ℚ) := by
    rcases Nat.eq_zero_or_pos m with rfl | hm_pos
    · exact Or.inl rounded_zero
    · exact Or.inr (by exact_mod_cast (rounded_count_bounds hm_pos hm).1)
  have hhigh : rounded (m : ℚ) ≤ rounded n * 2 ^ (top : ℤ) := by
    rcases Nat.eq_zero_or_pos m with rfl | hm_pos
    · rw [Nat.cast_zero, rounded_zero]
      exact mul_nonneg (one_pos.le.trans (rounded_count_bounds hpos hn).1) (two_zpow_pos _).le
    · rw [← rounded_mul_two_zpow (by exact_mod_cast hpos)]
      exact rounded_mono (by exact_mod_cast hm_pos) (by exact_mod_cast hle)
  exact (hasValue_ofNat hm).div_count hlow (by omega) hpos hn (by omega) hhigh

/-! ## Means -/

/-- Not more than a count is not more than the double for it. The count is cut
off where doubles run out of digits. -/
theorem min_le_rounded (n : Nat) : ((min n (2 ^ 53) : ℕ) : ℚ) ≤ rounded n := by
  rcases Nat.eq_zero_or_pos n with rfl | hpos
  · rw [Nat.cast_zero, rounded_zero]
    simp
  · rw [← rounded_natCast (Nat.min_le_right n (2 ^ 53))]
    refine rounded_mono ?_ (by exact_mod_cast Nat.min_le_left n (2 ^ 53))
    exact_mod_cast (by omega : 0 < min n (2 ^ 53))

/-- A mean of shares is not above what bounds them. The sum may have lost
something to rounding, and the number of shares as well; but both stand still at
the same count, so dividing does not bring the mean above the bound. -/
theorem exists_mean (htop : top ≤ 64) {shares : List Float} (hne : shares ≠ [])
    (hlength : shares.length ≤ 2 ^ 64) (hshares : ∀ x ∈ shares, UpTo (2 ^ (top : ℤ)) x) :
    ∃ q, HasValue (shares.foldl (· + ·) (Float.ofNat 0) / Float.ofNat shares.length) q ∧
      0 ≤ q ∧ q ≤ 2 ^ (top : ℤ) := by
  have hstart : UpTo ((min 0 (2 ^ 53) : ℕ) * 2 ^ (top : ℤ)) (Float.ofNat 0) :=
    ⟨0, hasValue_zero, Or.inl rfl, by positivity⟩
  obtain ⟨s, hs, hlow, hhigh⟩ := hstart.sum htop hshares
  rw [Nat.zero_add] at hhigh
  -- the divisor is the rounded number of shares, which may be less than their number
  have hsum : s ≤ rounded shares.length * 2 ^ (top : ℤ) :=
    hhigh.trans (mul_le_mul_of_nonneg_right (min_le_rounded _) (two_zpow_pos _).le)
  obtain ⟨q, hq, hqlow, hqhigh⟩ :=
    hs.div_count hlow (by omega) (List.length_pos_iff.2 hne) hlength (by omega) hsum
  exact ⟨q, hq, nonneg_of_zero_or hqlow, hqhigh⟩

end GraphMeasures.Double
