/-!
# GraphMeasures — reading bytes as UTF-8

A byte string is cut into pieces from the left. A piece is either the bytes of
one character, or the longest run of bytes that begins a character and is cut
short (at least one byte). `pieces` lists the characters read, `none` for a
piece of the second kind; `decode?` accepts byte strings without such a piece,
and `decodeLossy` writes the replacement character for each of them.
-/

namespace GraphMeasures.Text

/-- What a lead byte says of the bytes after it: its own share of the code
point and the range of every following byte. Nothing for a byte that cannot
stand first. -/
def leadByte (b : UInt8) : Option (Nat × List (Nat × Nat)) :=
  let n := b.toNat
  if n ≤ 0x7F then some (n, [])
  else if n < 0xC2 then none
  else if n ≤ 0xDF then some (n % 32, [(0x80, 0xBF)])
  else if n = 0xE0 then some (n % 16, [(0xA0, 0xBF), (0x80, 0xBF)])
  else if n = 0xED then some (n % 16, [(0x80, 0x9F), (0x80, 0xBF)])
  else if n ≤ 0xEF then some (n % 16, [(0x80, 0xBF), (0x80, 0xBF)])
  else if n = 0xF0 then some (n % 8, [(0x90, 0xBF), (0x80, 0xBF), (0x80, 0xBF)])
  else if n ≤ 0xF3 then some (n % 8, [(0x80, 0xBF), (0x80, 0xBF), (0x80, 0xBF)])
  else if n = 0xF4 then some (n % 8, [(0x80, 0x8F), (0x80, 0xBF), (0x80, 0xBF)])
  else none

/-- Reads the bytes after a lead byte while they lie in their ranges: the code
point if all of them do, and the bytes that were not taken. -/
def followers (point : Nat) : List (Nat × Nat) → List UInt8 → Option Nat × List UInt8
  | [], bytes => (some point, bytes)
  | _ :: _, [] => (none, [])
  | (first, last) :: ranges, b :: bytes =>
    if first ≤ b.toNat && b.toNat ≤ last then followers (point * 64 + b.toNat % 64) ranges bytes
    else (none, b :: bytes)

/-- Followers are taken off the front of what is there, so what remains is not
longer. With this the pieces of a text come to an end. -/
theorem length_followers_le (point : Nat) (ranges : List (Nat × Nat)) (bytes : List UInt8) :
    (followers point ranges bytes).2.length ≤ bytes.length := by
  fun_induction followers point ranges bytes with
  | case1 => exact Nat.le_refl _
  | case2 => exact Nat.le_refl _
  | case3 => simp only [List.length_cons]; omega
  | case4 => exact Nat.le_refl _

/-- The characters of a byte string, `none` for every piece that is not one. -/
def pieces : List UInt8 → List (Option Char)
  | [] => []
  | b :: bytes =>
    match leadByte b with
    | none => none :: pieces bytes
    | some (point, ranges) =>
      have := length_followers_le point ranges bytes
      (followers point ranges bytes).1.map Char.ofNat :: pieces (followers point ranges bytes).2
termination_by bytes => bytes.length
decreasing_by all_goals simp only [List.length_cons]; omega

/-- The text of a byte string that is well-formed UTF-8. -/
def decode? (bytes : List UInt8) : Option String :=
  (pieces bytes).mapM id |>.map String.ofList

/-- The text of any byte string, with U+FFFD for every piece that is no
character. -/
def decodeLossy (bytes : List UInt8) : String :=
  String.ofList ((pieces bytes).map (·.getD '\uFFFD'))

end GraphMeasures.Text
