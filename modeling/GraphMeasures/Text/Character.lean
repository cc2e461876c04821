/-!
# GraphMeasures — classes of characters

What the texts that are read and written here need to know of single characters.

* `Ranges` — a class of characters is a set of code points, written as a list of
  closed ranges. The classes that are used are those of Unicode 17.0.
* `isBlank`, `trim` — texts from the environment are read with the blanks around
  them taken away. A blank is a character with the property `White_Space`: 25
  characters in ten ranges, which `blankRanges` lists.
* `digit?`, `decimalValue?` — the ten ASCII digits and the numbers that runs of them
  spell.
-/

namespace GraphMeasures.Text

/-! ## Sets of code points -/

/-- A set of code points: ranges with both ends included. -/
abbrev Ranges := List (Nat × Nat)

namespace Ranges

/-- Whether a character is in one of the ranges. -/
def covers (ranges : Ranges) (c : Char) : Bool :=
  ranges.any fun (first, last) => first ≤ c.toNat && c.toNat ≤ last

/-- Whether every range has a first code point that is not above the last, and
leaves a gap to the range before it. -/
def ascendingFrom (low : Nat) : Ranges → Bool
  | [] => true
  | (first, last) :: rest => low ≤ first && first ≤ last && ascendingFrom (last + 2) rest

def size (ranges : Ranges) : Nat :=
  ranges.foldl (fun n (first, last) => n + (last + 1 - first)) 0

end Ranges

/-! ## Blanks -/

/-- The code points with the property `White_Space`. -/
def blankRanges : Ranges :=
  [(0x09, 0x0D), (0x20, 0x20), (0x85, 0x85), (0xA0, 0xA0), (0x1680, 0x1680),
   (0x2000, 0x200A), (0x2028, 0x2029), (0x202F, 0x202F), (0x205F, 0x205F), (0x3000, 0x3000)]

/-- The table of blanks is in order and without overlaps, so that its size is a
number of characters. -/
theorem ascending_blankRanges : blankRanges.ascendingFrom 0 = true := by
  decide

/-- There are 25 blanks, as the property has it. -/
theorem size_blankRanges : blankRanges.size = 25 := by
  decide

def isBlank (c : Char) : Bool :=
  blankRanges.covers c

/-- The characters from the first that is not blank to the last that is not. -/
def trimChars (cs : List Char) : List Char :=
  ((cs.dropWhile isBlank).reverse.dropWhile isBlank).reverse

/-- A text without the blanks at its two ends. -/
def trim (s : String) : String :=
  String.ofList (trimChars s.toList)

/-! ## Digits -/

/-- The value of a decimal digit. -/
def digit? (c : Char) : Option Nat :=
  if '0' ≤ c && c ≤ '9' then some (c.toNat - '0'.toNat) else none

/-- The number that digits spell, the highest first. -/
def digitsValue (digits : List Nat) : Nat :=
  digits.foldl (fun n d => n * 10 + d) 0

/-- The number that one or more characters spell, all of them digits. -/
def decimalValue? (cs : List Char) : Option Nat :=
  if cs.isEmpty then none else (cs.mapM digit?).map digitsValue

end GraphMeasures.Text
