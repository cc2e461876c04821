import GraphMeasures.Options
import GraphMeasures.Proofs.Double.Ceiling
import GraphMeasures.Proofs.Double.Mean
import Mathlib

/-!
# GraphMeasures — counts are read exactly

An option that is a count may be written as a word, as a negative number or as a double.
Each stands for an exact number (`Json.Number.value`), and the tests that are made on
doubles decide about this number (`countOfDouble?_eq_some_iff`). So a count is either the
number that was written or it is refused: none is rounded, starts again behind the
largest word or stays there (`countOr_exact`).
-/

namespace GraphMeasures

open Double

/-! ## Numbers -/

namespace Json

/-- What a number is exactly; both zeros of the doubles are zero. -/
def Number.value : Number → ℚ
  | .natural n => n.toNat
  | .negative n => -n.toNat
  | .double x => exactValue x

/-- The numbers as they are kept: words, negative words with a sign, finite doubles. -/
def Number.Kept : Number → Prop
  | .natural _ => True
  | .negative n => 0 < n.toNat ∧ n.toNat ≤ 2 ^ 63
  | .double x => x.isFinite = true

/-- A negative number stays negative when it is rounded to a double: rounding is
symmetric, and what is at least one is not rounded down to zero. -/
theorem exactly_negative {n : UInt64} (hpos : 0 < n.toNat) :
    ∃ q, Exactly (Number.negative n).toFloat q ∧ q < 0 := by
  have hvalue := hasValue_toFloat n.toNat_lt
  have hself : n.toNat.toUInt64 = n := UInt64.ofNat_toNat
  rw [hself] at hvalue
  -- rounding keeps a count that is not zero at one or more
  have hone := (rounded_count_bounds hpos n.toNat_lt.le).1
  exact ⟨_, hvalue.exactly.neg, by linarith⟩

end Json

namespace Options

/-! ## Doubles as counts -/

/-- The limit of the counts is a double, and it is exactly the number of
words. -/
theorem exactly_countLimit : Exactly countLimit (2 ^ 64) := by
  have hvalue : (2 ^ 64 : ℚ) = (2 ^ 52 : ℕ) * 2 ^ (12 : ℤ) := by norm_num
  rw [hvalue]
  exact exactly_of_unpack (by decide) (by decide) rfl

/-- A double that is a word becomes this word. Nothing is cut off, neither
behind the point nor at the top. -/
theorem toNat_toUInt64 {a : Float} {k : Nat} (ha : Exactly a k) (hk : k < 2 ^ 64) :
    a.toUInt64.toNat = k := by
  rw [ha.toUInt64, Nat.floor_natCast, Nat.min_eq_left]
  exact Nat.le_of_lt_succ hk

/-- The tests on a double decide whether it is a word: not below zero, no digits
behind the point, and less than the number of words. The last test is strict
because the largest word is no double, so rounding it would let the limit itself
through. -/
theorem countOfDouble?_eq_some_iff {a : Float} {q : ℚ} (ha : Exactly a q) {k : UInt64} :
    countOfDouble? a = some k ↔ q = k.toNat := by
  -- the tests on the double, said of the number that it is
  have htests : (a.isFinite && decide (0.0 ≤ a) && Decimal.fraction a == 0.0 &&
      decide (a < countLimit)) = true ↔ (0 ≤ q ∧ ∃ z : ℤ, q = z) ∧ q < 2 ^ 64 := by
    rw [ha.isFinite, Bool.true_and, Bool.and_eq_true, Bool.and_eq_true, decide_eq_true_iff,
      decide_eq_true_iff, exactly_zero.le_iff ha, ha.fraction_eq_zero_iff,
      ha.lt_iff exactly_countLimit]
  unfold countOfDouble?
  constructor
  · intro h
    split at h
    · next hpass =>
      obtain ⟨⟨hnonneg, z, rfl⟩, hlt⟩ := htests.1 hpass
      obtain ⟨n, rfl⟩ := Int.eq_ofNat_of_zero_le (Int.cast_nonneg_iff.1 hnonneg)
      rw [Int.cast_natCast] at ha hlt ⊢
      rw [← Option.some.inj h, toNat_toUInt64 ha (by exact_mod_cast hlt)]
    · exact absurd h (by simp)
  · rintro rfl
    have hlt : (k.toNat : ℚ) < 2 ^ 64 := by exact_mod_cast k.toNat_lt
    rw [if_pos (htests.2 ⟨⟨k.toNat.cast_nonneg, k.toNat, by simp⟩, hlt⟩)]
    exact congrArg some (UInt64.toNat_inj.1 (toNat_toUInt64 ha k.toNat_lt))

/-- A number is read as a count exactly if its value is one, in whichever of the
three ways it is kept. A word is its own count; a negative number is none, and
goes the way of the doubles to find out. -/
theorem countOfNumber?_eq_some_iff {n : Json.Number} (hn : n.Kept) {k : UInt64} :
    countOfNumber? n = some k ↔ n.value = k.toNat := by
  cases n with
  | natural m =>
    show some m = some k ↔ (m.toNat : ℚ) = k.toNat
    rw [Option.some.injEq, Nat.cast_inj, UInt64.toNat_inj]
  | negative m =>
    -- neither the number nor the double for it is a word
    obtain ⟨q, hq, hneg⟩ := Json.exactly_negative hn.1
    have hm : (0 : ℚ) < m.toNat := by exact_mod_cast hn.1
    have hk : (0 : ℚ) ≤ k.toNat := k.toNat.cast_nonneg
    refine (countOfDouble?_eq_some_iff hq).trans (iff_of_false (by linarith) fun h => ?_)
    have hvalue : (Json.Number.negative m).value = -m.toNat := rfl
    linarith
  | double x => exact countOfDouble?_eq_some_iff (exactly_exactValue hn)

/-! ## Options as counts -/

/-- What is read where a count is expected: the default where nothing stands, a number
that is a word as this word, and errors for other numbers and for what is no number. -/
inductive CountRead (name : String) (default : UInt64) :
    Option Json.Value → Except OptionsError UInt64 → Prop
  | absent : CountRead name default none (.ok default)
  | count {n : Json.Number} {k : UInt64} (h : n.value = k.toNat) :
      CountRead name default (some (.number n)) (.ok k)
  | notCount {n : Json.Number} (h : ∀ k : Nat, k < 2 ^ 64 → n.value ≠ k) :
      CountRead name default (some (.number n)) (.error (.invalidNumber name n.toFloat))
  | notNumber {v : Json.Value} (h : ∀ n, v ≠ .number n) :
      CountRead name default (some v) (.error (.wrongType name "number"))

variable {name : String} {default : UInt64}

/-- At most one outcome is the right one: the kinds of what may stand at a name
exclude each other, and a number has one exact value, to which at most one word
is equal. -/
theorem CountRead.unique {found : Option Json.Value} {r r' : Except OptionsError UInt64}
    (h : CountRead name default found r) (h' : CountRead name default found r') : r = r' := by
  -- each of the cases excludes the three others
  cases h with
  | absent => cases h'; rfl
  | @count n k h =>
    cases h' with
    | count h' =>
      have heq : (k.toNat : ℚ) = _ := h.symm.trans h'
      rw [UInt64.toNat_inj.1 (Nat.cast_injective heq)]
    | notCount h' => exact absurd h (h' _ k.toNat_lt)
    | notNumber h' => exact absurd rfl (h' n)
  | @notCount n h =>
    cases h' with
    | @count _ k h' => exact absurd h' (h _ k.toNat_lt)
    | notCount => rfl
    | notNumber h' => exact absurd rfl (h' n)
  | @notNumber v h =>
    cases h' with
    | @count n => exact absurd rfl (h n)
    | @notCount n => exact absurd rfl (h n)
    | notNumber => rfl

/-- What is read is the right outcome, case by case along what may stand at the
name. For a double the word is the one that was checked to give the double
back. -/
theorem countRead_countOr (o : Options)
    (hkept : ∀ n, o.get? name = some (.number n) → n.Kept) :
    CountRead name default (o.get? name) (o.countOr name default) := by
  unfold countOr
  cases hget : o.get? name with
  | none => exact .absent
  | some v =>
    cases v with
    | number n =>
      have hread := @countOfNumber?_eq_some_iff n (hkept n hget)
      dsimp only
      cases hcount : countOfNumber? n with
      | some k => exact .count (hread.1 hcount)
      | none =>
        refine .notCount fun k hk hvalue => ?_
        -- a number that is a word would have been read
        have hword : n.value = (UInt64.ofNat k).toNat := by
          rw [UInt64.toNat_ofNat_of_lt' hk]
          exact hvalue
        rw [hread.2 hword] at hcount
        exact Option.some_ne_none _ hcount
    | _ => exact .notNumber fun n => Json.Value.noConfusion

/-- **Counts are read exactly or refused.** For all options, names and defaults: the
default is read where nothing stands; a number, whether it is kept as a word, as a
negative number or as a finite double, is read as the word that it exactly is; and every
other number and whatever is no number is refused, each with its own error. -/
theorem countOr_exact (o : Options) (name : String) (default : UInt64)
    (hkept : ∀ n, o.get? name = some (.number n) → n.Kept) (r : Except OptionsError UInt64) :
    o.countOr name default = r ↔ CountRead name default (o.get? name) r := by
  have hread := @countRead_countOr name default o hkept
  constructor
  · rintro rfl
    exact hread
  · exact hread.unique

/-- The largest double below `2 ^ 64` is read as the word that it is, not as the
largest one: the value is exact, though a double that size has no digits for
units. -/
theorem countOr_exact_largest :
    let o := ofMembers [("seed", .number (.double 18446744073709549568.0))]
    (∀ n, o.get? "seed" = some (.number n) → n.Kept) ∧
      o.countOr "seed" 1 = .ok 18446744073709549568 := by
  intro o
  have hget : o.get? "seed" = some (.number (.double 18446744073709549568.0)) :=
    Std.TreeMap.getElem?_insert_self
  have hkept : ∀ n, o.get? "seed" = some (.number n) → n.Kept := by
    intro n hn
    obtain rfl : Json.Number.double 18446744073709549568.0 = n := by
      rw [hget] at hn
      injection hn with hn
      injection hn
    rfl
  have hvalue : exactValue 18446744073709549568.0 = ((2 ^ 53 - 1 : ℕ) : ℚ) * 2 ^ (11 : ℤ) := rfl
  refine ⟨hkept, (countOr_exact o "seed" 1 hkept _).2 ?_⟩
  rw [hget]
  refine .count (hvalue.trans ?_)
  have hword : (18446744073709549568 : UInt64).toNat = 18446744073709549568 := rfl
  rw [hword]
  norm_num

example : countOfNumber? (.double 18446744073709551616.0) = none := by decide +kernel
example : countOfNumber? (.double (-0.0)) = some 0 := by decide +kernel

end Options

end GraphMeasures
