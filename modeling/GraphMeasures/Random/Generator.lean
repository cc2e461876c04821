import GraphMeasures.Quantity

/-!
# GraphMeasures — the random generator

A run has one seed and any number of random streams. The generator of a stream
is seeded with `streamSeed seed stream`: the number of the stream is spread
over all 64 bits by a multiplication, joined to the seed, and the result is
scrambled. All arithmetic wraps at 64 bits.

A `Generator` has four words of state and gives one word at a time. From words
it makes doubles in the unit interval (`unit`) and indexes below a bound
(`below`).

An index is the high half of the product of a word and the bound. A word whose
low half is beyond the last full multiple of the bound would favour small
indexes, so another word is drawn for it.
-/

namespace GraphMeasures.Random

/-! ## The seeds of streams -/

/-- An odd number with evenly spread bits: `2 ^ 64` over the golden ratio. -/
def spacing : UInt64 := 0x9E3779B97F4A7C15

/-- Scrambles a word so that every bit of it reaches every bit of the result. -/
def scramble (word : UInt64) : UInt64 :=
  let a := word + spacing
  let b := (a ^^^ (a >>> 30)) * 0xBF58476D1CE4E5B9
  let c := (b ^^^ (b >>> 27)) * 0x94D049BB133111EB
  c ^^^ (c >>> 31)

/-- The seed of a stream's generator. -/
def streamSeed (seed stream : UInt64) : UInt64 :=
  scramble (seed ^^^ ((stream + 1) * spacing))

/-! ## Words -/

structure Generator where
  s0 : UInt64
  s1 : UInt64
  s2 : UInt64
  s3 : UInt64
deriving Repr, DecidableEq

/-- A word turned left by less than 64 places. -/
def rotateLeft (x places : UInt64) : UInt64 :=
  (x <<< places) ||| (x >>> (64 - places))

/-- A 32-bit word turned right. -/
def rotateRight32 (x places : UInt32) : UInt32 :=
  (x >>> places) ||| (x <<< ((32 - places) % 32))

namespace Generator

/-! ## Seeding -/

/-- One step of the congruential sequence that seeds are expanded with. -/
def expandStep (x : UInt64) : UInt64 :=
  x * 6364136223846793005 + 11634580027462260723

/-- The 32 bits that a word of the sequence gives: its upper bits folded
together and turned by the number in its top five bits. -/
def expandOutput (x : UInt64) : UInt64 :=
  let folded := (((x >>> 18) ^^^ x) >>> 27).toUInt32
  (rotateRight32 folded (x >>> 59).toUInt32).toUInt64

/-- The next state word of a seed, its low half first, and the rest of the
sequence. -/
def expandWord (x : UInt64) : UInt64 × UInt64 :=
  let low := expandStep x
  let high := expandStep low
  (expandOutput low ||| (expandOutput high <<< 32), high)

def ofSeed (seed : UInt64) : Generator :=
  let (s0, x) := expandWord seed
  let (s1, x) := expandWord x
  let (s2, x) := expandWord x
  let (s3, _) := expandWord x
  ⟨s0, s1, s2, s3⟩

/-- The generator of a stream of a run. -/
def ofStream (seed stream : UInt64) : Generator :=
  ofSeed (streamSeed seed stream)

/-! ## Drawing -/

def next (g : Generator) : UInt64 × Generator :=
  let word := rotateLeft (g.s0 + g.s3) 23 + g.s0
  let s2 := g.s2 ^^^ g.s0
  let s3 := g.s3 ^^^ g.s1
  (word, ⟨g.s0 ^^^ s3, g.s1 ^^^ s2, s2 ^^^ (g.s1 <<< 17), rotateLeft s3 45⟩)

/-- A double in the unit interval, one excluded: the upper 53 bits of a word
as a multiple of `2 ^ -53`. -/
def unit (g : Generator) : Float × Generator :=
  let (word, g) := g.next
  ((word >>> 11).toFloat / 9007199254740992.0, g)

/-- The largest low half of a product that is accepted: the bound is doubled
while it stays below `2 ^ 64`, and this is one less. -/
def acceptUpTo (bound : Nat) : Nat :=
  (bound <<< (63 - bound.log2)) - 1

/-- Draws words until one is accepted, at most `tries` that are not. -/
def belowWithin (bound : Nat) (pos : 0 < bound) : Nat → Generator → Fin bound × Generator
  | tries, g =>
    let product := g.next.1.toNat * bound
    have high_lt : product / Index.count < bound :=
      Nat.div_lt_of_lt_mul (Nat.mul_lt_mul_of_pos_right (UInt64.toNat_lt _) pos)
    match tries with
    | 0 => (⟨product / Index.count, high_lt⟩, g.next.2)
    | tries + 1 =>
      if product % Index.count ≤ acceptUpTo bound then (⟨product / Index.count, high_lt⟩, g.next.2)
      else belowWithin bound pos tries g.next.2

/-- More refusals in a row than occur: a word is accepted with a probability of
at least one half. -/
def maxRefusals : Nat := 0x100000000

/-- An index below a bound of at most 64 bits. -/
def below (bound : Nat) (pos : 0 < bound) (g : Generator) : Fin bound × Generator :=
  belowWithin bound pos maxRefusals g

/-- Draws doubles until one is not below `p`, at most `limit`: `count` and how
many were. -/
def countBelow (p : Float) : (limit count : Nat) → Generator → Nat × Generator
  | 0, count, g => (count, g)
  | limit + 1, count, g =>
    if g.unit.1 < p then countBelow p limit (count + 1) g.unit.2 else (count, g.unit.2)

/-- More draws than any run makes. -/
def maxCount : Nat := 0x4000000000000000

/-- A number with the geometric distribution: how many draws in a row fall
below `p`. -/
def geometric (p : Float) (g : Generator) : Nat × Generator :=
  countBelow p maxCount 0 g

end Generator

end GraphMeasures.Random
