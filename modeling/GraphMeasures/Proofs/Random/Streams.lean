import Mathlib.Data.Set.Function
import Mathlib.Order.Interval.Set.Defs
import GraphMeasures.RunConfig
import GraphMeasures.Score.ForestFire

/-!
# GraphMeasures — streams have seeds of their own

The seed of a stream's generator is made in steps that each can be undone: a sum by a
difference, a product with an odd number by a product with its inverse, a word joined by
joining it again. A word that is joined to its own upper places (`stir`) comes back when
it is joined to them twice more, since nothing is left of a word that is shifted three
times.

* `scramble_bijective` — no two words are scrambled into one.
* `streamsApart` — neither two streams of a run nor two seeds for a stream give a
  generator the same seed.
-/

namespace GraphMeasures.Random

open Function

/-! ## Steps that can be undone -/

theorem add_bijective (summand : UInt64) : Bijective (· + summand) :=
  bijective_iff_has_inverse.2 ⟨(· - summand), fun word => UInt64.add_sub_cancel word summand,
    fun word => UInt64.sub_add_cancel word summand⟩

/-- An odd factor has an inverse, and multiplying with the inverse undoes the
step. -/
theorem mul_bijective (factor inverse : UInt64) (h : factor * inverse = 1) :
    Bijective (· * factor) := by
  refine bijective_iff_has_inverse.2 ⟨(· * inverse), fun word => ?_, fun word => ?_⟩
  · show word * factor * inverse = word
    rw [UInt64.mul_assoc, h, UInt64.mul_one]
  · show word * inverse * factor = word
    rw [UInt64.mul_assoc, UInt64.mul_comm inverse, h, UInt64.mul_one]

theorem xor_bijective (mask : UInt64) : Bijective (mask ^^^ ·) := by
  refine Involutive.bijective fun word => ?_
  show mask ^^^ (mask ^^^ word) = word
  rw [← UInt64.xor_assoc, UInt64.xor_self, UInt64.zero_xor]

/-- A word joined to its own upper places. -/
def stir (places word : UInt64) : UInt64 :=
  word ^^^ (word >>> places)

/-- The word that was stirred. -/
def unstir (places word : UInt64) : UInt64 :=
  word ^^^ (word >>> places) ^^^ (word >>> places >>> places)

section Stir

variable {places : UInt64} (hlarge : 22 ≤ places) (hsmall : places < 64)

include hlarge hsmall

/-- Nothing is left of a word that is shifted by a third of its places three
times. -/
theorem shift_shift_shift (word : UInt64) : word >>> places >>> places >>> places = 0 := by
  have hlarge : 22 ≤ places.toNat := UInt64.le_iff_toNat_le.1 hlarge
  have hsmall : places.toNat < 64 := UInt64.lt_iff_toNat_lt.1 hsmall
  -- as one shift of a natural number, by more than its places
  refine UInt64.toNat_inj.1 ?_
  rw [UInt64.toNat_shiftRight, UInt64.toNat_shiftRight, UInt64.toNat_shiftRight,
    Nat.mod_eq_of_lt hsmall, ← Nat.shiftRight_add, ← Nat.shiftRight_add]
  refine Nat.shiftRight_eq_zero _ _ (Nat.lt_of_lt_of_le word.toNat_lt ?_)
  exact Nat.pow_le_pow_right (by decide) (by omega)

/-- What is joined twice goes away, and the third shift is empty. So the word
comes back when it is joined with its first two shifts. -/
theorem unstir_stir (word : UInt64) : unstir places (stir places word) = word := by
  unfold unstir stir
  rw [UInt64.shiftRight_xor, UInt64.shiftRight_xor, shift_shift_shift hlarge hsmall,
    UInt64.xor_zero]
  generalize word >>> places = once
  generalize once >>> places = twice
  calc word ^^^ once ^^^ (once ^^^ twice) ^^^ twice
      = word ^^^ (once ^^^ once) ^^^ (twice ^^^ twice) := by simp only [UInt64.xor_assoc]
    _ = word := by simp only [UInt64.xor_self, UInt64.xor_zero]

/-- The other way round the same terms go away: mixing what was unmixed gives
the word back, so both directions together make a bijection. -/
theorem stir_unstir (word : UInt64) : stir places (unstir places word) = word := by
  unfold stir unstir
  rw [UInt64.shiftRight_xor, UInt64.shiftRight_xor, shift_shift_shift hlarge hsmall,
    UInt64.xor_zero]
  generalize word >>> places = once
  generalize once >>> places = twice
  have hpair : once ^^^ twice ^^^ (once ^^^ twice) = 0 := UInt64.xor_self
  calc word ^^^ once ^^^ twice ^^^ (once ^^^ twice)
      = word ^^^ (once ^^^ twice ^^^ (once ^^^ twice)) := by simp only [UInt64.xor_assoc]
    _ = word := by rw [hpair, UInt64.xor_zero]

theorem stir_bijective : Bijective (stir places) :=
  bijective_iff_has_inverse.2
    ⟨unstir places, unstir_stir hlarge hsmall, stir_unstir hlarge hsmall⟩

end Stir

/-! ## Seeds of streams -/

/-- Every step of the scrambling can be undone: a sum, two stirrings with a
product after each, and a last stirring. -/
theorem scramble_bijective : Bijective scramble := by
  -- each factor with its inverse modulo `2 ^ 64`
  have hfirst := mul_bijective 0xBF58476D1CE4E5B9 0x96DE1B173F119089 (by decide)
  have hsecond := mul_bijective 0x94D049BB133111EB 0x319642B2D24D8EC3 (by decide)
  have h30 : Bijective (stir 30) := stir_bijective (by decide) (by decide)
  have h27 : Bijective (stir 27) := stir_bijective (by decide) (by decide)
  have h31 : Bijective (stir 31) := stir_bijective (by decide) (by decide)
  exact h31.comp (hsecond.comp (h27.comp (hfirst.comp (h30.comp (add_bijective spacing)))))

/-- Each stream of a run has a seed of its own. From the number of the stream to
the seed it is one more, an odd factor, the seed of the run as a mask and the
scrambling, and all of this can be undone. -/
theorem streamSeed_bijective (seed : UInt64) : Bijective (streamSeed seed) := by
  have hspread := mul_bijective spacing 0xF1DE83E19937733D (by decide)
  exact scramble_bijective.comp ((xor_bijective seed).comp (hspread.comp (add_bijective 1)))

/-- Each seed of a run gives a stream a seed of its own, so the same stream is
seeded differently in runs with different seeds. -/
theorem streamSeed_left_bijective (stream : UInt64) :
    Bijective fun seed => streamSeed seed stream := by
  have hjoin : Bijective fun seed : UInt64 => seed ^^^ ((stream + 1) * spacing) := by
    simp only [UInt64.xor_comm _ ((stream + 1) * spacing)]
    exact xor_bijective _
  exact scramble_bijective.comp hjoin

/-- Seeds are apart in a run and from run to run: from the seed of a generator and the
seed of the run follows the stream, and from the stream the seed of the run. -/
structure StreamsApart : Prop where
  streams : ∀ seed, Bijective (streamSeed seed)
  seeds : ∀ stream, Bijective fun seed => streamSeed seed stream
  /-- These are the seeds that the generators of a run have. -/
  generator_eq : ∀ (config : RunConfig) stream,
    config.generator stream = .ofSeed (streamSeed config.seed stream)
  streams_ne : ∀ (config : RunConfig) stream stream', stream ≠ stream' →
    streamSeed config.seed stream ≠ streamSeed config.seed stream'
  seeds_ne : ∀ (config config' : RunConfig) stream, config.seed ≠ config'.seed →
    streamSeed config.seed stream ≠ streamSeed config'.seed stream
  /-- A fire draws from the generator of its number. -/
  fire_eq : ∀ {W : Type} (f : Score.ForestFire) (g : Graph W) seed number,
    f.fire g seed number = do
      return (← Score.Fire.burn (.random f.spread) g
        (.ofSeed (streamSeed seed (.ofNat number)))).1.burnt
  fires_injOn : ∀ seed,
    Set.InjOn (fun number => streamSeed seed (.ofNat number)) (Set.Iio Index.count)

/-- **No two streams are seeded alike.** Whatever is drawn from them comes from
the words that they are seeded with, and those are all different, within a run
and for one stream between runs. The fires of a run are numbered streams, so no
two of them draw alike. -/
theorem streamsApart : StreamsApart where
  streams := streamSeed_bijective
  seeds := streamSeed_left_bijective
  generator_eq := fun _ _ => rfl
  streams_ne := fun config _ _ hne => (streamSeed_bijective config.seed).injective.ne hne
  seeds_ne := fun _ _ stream hne => (streamSeed_left_bijective stream).injective.ne hne
  fire_eq := fun _ _ _ _ => rfl
  fires_injOn := by
    intro seed i hi j hj hsame
    have hword := (streamSeed_bijective seed).injective hsame
    -- a number of a fire is the number of a stream as long as it fits in a word
    have hnumber := congrArg UInt64.toNat hword
    rwa [UInt64.toNat_ofNat_of_lt' hi, UInt64.toNat_ofNat_of_lt' hj] at hnumber

end GraphMeasures.Random
