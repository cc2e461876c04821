import GraphMeasures.Environment
import Mathlib

/-!
# GraphMeasures — texts as bytes

A character is encoded as one to four bytes. The first byte says how many follow and
what range they lie in, so a character is read back from its bytes and nothing of what
stands behind it is taken (`pieces_encode`). A variable that is set to the bytes of a text
therefore has this text as its value (`ofBytes_encoded`).
-/

namespace GraphMeasures

namespace Text

variable {point first last : Nat} {ranges : List (Nat × Nat)} {b : UInt8} {bytes rest : List UInt8}

/-- A byte in its range belongs to the character and adds its digits. -/
theorem followers_cons (hfirst : first ≤ b.toNat) (hlast : b.toNat ≤ last) :
    followers point ((first, last) :: ranges) (b :: bytes) =
      followers (point * 64 + b.toNat % 64) ranges bytes := by
  rw [followers, if_pos (by rw [decide_eq_true hfirst, decide_eq_true hlast]; rfl)]

/-- A lead byte and the bytes that belong to it are one character, and the text
goes on behind them. -/
theorem pieces_cons {code : Nat} (hlead : leadByte b = some (point, ranges))
    (hfollow : followers point ranges bytes = (some code, rest)) :
    pieces (b :: bytes) = some (Char.ofNat code) :: pieces rest := by
  rw [pieces]
  split
  · next hnone => rw [hlead] at hnone; contradiction
  · next point' ranges' hsome =>
    rw [hlead] at hsome
    obtain ⟨rfl, rfl⟩ : point = point' ∧ ranges = ranges' := by simpa using hsome
    dsimp only
    rw [hfollow]
    rfl

/-! ## Lead bytes -/

/-- A small code is its own byte, with none to follow. -/
theorem leadByte_one {n : Nat} (h : n ≤ 0x7F) : leadByte (.ofNat n) = some (n, []) := by
  unfold leadByte
  rw [UInt8.toNat_ofNat_of_lt' (show n < 256 by omega)]
  dsimp only
  rw [if_pos h]

/-- A lead byte of two has five digits and one byte to follow. -/
theorem leadByte_two {n : Nat} (hlow : 2 ≤ n) (hhigh : n < 32) :
    leadByte (.ofNat (n + 0xC0)) = some (n, [(0x80, 0xBF)]) := by
  unfold leadByte
  rw [UInt8.toNat_ofNat_of_lt' (show n + 0xC0 < 256 by omega)]
  dsimp only
  rw [if_neg (by omega), if_neg (by omega), if_pos (by omega), show (n + 0xC0) % 32 = n by omega]

/-- The range of the second byte leaves out what has a shorter code, and the
surrogates. Which it is depends on the lead byte, so the cases are those of its
digits. -/
theorem leadByte_three {n second : Nat} (hn : n < 16) (hsecond : second < 64)
    (hlong : n = 0 → 32 ≤ second) (hsurrogate : n = 13 → second < 32) :
    ∃ first last, leadByte (.ofNat (n + 0xE0)) = some (n, [(first, last), (0x80, 0xBF)]) ∧
      first ≤ second + 0x80 ∧ second + 0x80 ≤ last := by
  unfold leadByte
  rw [UInt8.toNat_ofNat_of_lt' (show n + 0xE0 < 256 by omega)]
  dsimp only
  rw [if_neg (by omega), if_neg (by omega), if_neg (by omega), show (n + 0xE0) % 16 = n by omega]
  -- in two cases the first byte narrows what may follow it
  by_cases hleast : n + 0xE0 = 0xE0
  · rw [if_pos hleast]
    exact ⟨_, _, rfl, by omega, by omega⟩
  by_cases hgap : n + 0xE0 = 0xED
  · rw [if_neg hleast, if_pos hgap]
    exact ⟨_, _, rfl, by omega, by omega⟩
  · rw [if_neg hleast, if_neg hgap, if_pos (by omega)]
    exact ⟨_, _, rfl, by omega, by omega⟩

/-- The range of the second byte leaves out what has a shorter code, and what
lies behind the last code point. -/
theorem leadByte_four {n second : Nat} (hn : n ≤ 4) (hsecond : second < 64)
    (hlong : n = 0 → 16 ≤ second) (hlast : n = 4 → second < 16) :
    ∃ first last,
      leadByte (.ofNat (n + 0xF0)) = some (n, [(first, last), (0x80, 0xBF), (0x80, 0xBF)]) ∧
        first ≤ second + 0x80 ∧ second + 0x80 ≤ last := by
  unfold leadByte
  rw [UInt8.toNat_ofNat_of_lt' (show n + 0xF0 < 256 by omega)]
  dsimp only
  rw [if_neg (by omega), if_neg (by omega), if_neg (by omega), if_neg (by omega),
    if_neg (by omega), if_neg (by omega), show (n + 0xF0) % 8 = n by omega]
  -- in two cases the first byte narrows what may follow it
  by_cases hleast : n + 0xF0 = 0xF0
  · rw [if_pos hleast]
    exact ⟨_, _, rfl, by omega, by omega⟩
  by_cases hmiddle : n + 0xF0 ≤ 0xF3
  · rw [if_neg hleast, if_pos hmiddle]
    exact ⟨_, _, rfl, by omega, by omega⟩
  · rw [if_neg hleast, if_neg hmiddle, if_pos (by omega)]
    exact ⟨_, _, rfl, by omega, by omega⟩

/-! ## Characters -/

/-- A byte that is not the first of its character adds six binary digits. -/
theorem followers_tail {n : Nat} (hn : n < 64) (hfirst : first ≤ n + 0x80)
    (hlast : n + 0x80 ≤ last) :
    followers point ((first, last) :: ranges) (.ofNat (n + 0x80) :: bytes) =
      followers (point * 64 + n) ranges bytes := by
  have hbyte := UInt8.toNat_ofNat_of_lt' (show n + 0x80 < 256 by omega)
  rw [followers_cons (by omega) (by omega), hbyte]
  congr 2
  omega

/-- The bytes of a character are read back as this character. There are four
cases, one for each number of bytes; in each the digits are put together again,
and the bounds of the code are those under which the second byte is in its
range. -/
theorem pieces_encodeChar (c : Char) (rest : List UInt8) :
    pieces (String.utf8EncodeChar c ++ rest) = some c :: pieces rest := by
  have hself : Char.ofNat c.val.toNat = c := Char.ofNat_toNat c
  have hvalid : c.val.toNat < 0xD800 ∨ 0xDFFF < c.val.toNat ∧ c.val.toNat < 0x110000 := c.valid
  generalize hcode : c.val.toNat = code at hself hvalid
  -- a case for each length; the shorter ones being excluded bounds the lead byte from below
  unfold String.utf8EncodeChar
  rw [hcode]
  dsimp only
  split_ifs with hone htwo hthree
  · rw [List.cons_append, List.nil_append, pieces_cons (leadByte_one hone) (by rw [followers]),
      hself]
  · have hlead := @leadByte_two (code / 64 % 0x20) (by omega) (by omega)
    have hpoint : code / 64 % 0x20 * 64 + code % 0x40 = code := by omega
    have hfollow : followers (code / 64 % 0x20) [(0x80, 0xBF)]
        (.ofNat (code % 0x40 + 0x80) :: rest) = (some code, rest) := by
      rw [followers_tail (by omega) (by omega) (by omega), hpoint, followers]
    rw [List.cons_append, List.cons_append, List.nil_append, pieces_cons hlead hfollow, hself]
  · obtain ⟨first, last, hlead, hfirst, hlast⟩ := @leadByte_three (code / 4096 % 0x10)
      (code / 64 % 0x40) (by omega) (by omega) (by omega) (by omega)
    have hpoint : (code / 4096 % 0x10 * 64 + code / 64 % 0x40) * 64 + code % 0x40 = code := by
      omega
    have hfollow : followers (code / 4096 % 0x10) [(first, last), (0x80, 0xBF)]
        (.ofNat (code / 64 % 0x40 + 0x80) :: .ofNat (code % 0x40 + 0x80) :: rest) =
          (some code, rest) := by
      rw [followers_tail (by omega) hfirst hlast,
        followers_tail (by omega) (by omega) (by omega), hpoint, followers]
    rw [List.cons_append, List.cons_append, List.cons_append, List.nil_append,
      pieces_cons hlead hfollow, hself]
  · obtain ⟨first, last, hlead, hfirst, hlast⟩ := @leadByte_four (code / 262144 % 0x08)
      (code / 4096 % 0x40) (by omega) (by omega) (by omega) (by omega)
    have hpoint : ((code / 262144 % 0x08 * 64 + code / 4096 % 0x40) * 64 + code / 64 % 0x40) * 64 +
        code % 0x40 = code := by
      omega
    have hfollow : followers (code / 262144 % 0x08) [(first, last), (0x80, 0xBF), (0x80, 0xBF)]
        (.ofNat (code / 4096 % 0x40 + 0x80) :: .ofNat (code / 64 % 0x40 + 0x80) ::
          .ofNat (code % 0x40 + 0x80) :: rest) = (some code, rest) := by
      rw [followers_tail (by omega) hfirst hlast,
        followers_tail (by omega) (by omega) (by omega),
        followers_tail (by omega) (by omega) (by omega), hpoint, followers]
    rw [List.cons_append, List.cons_append, List.cons_append, List.cons_append, List.nil_append,
      pieces_cons hlead hfollow, hself]

/-! ## Texts -/

/-- The bytes of some characters are read back as these characters. -/
theorem pieces_encode (cs : List Char) :
    pieces (cs.flatMap String.utf8EncodeChar) = cs.map some := by
  -- a character takes its own bytes and leaves those of the characters behind it
  induction cs with
  | nil => rw [List.flatMap_nil, pieces, List.map_nil]
  | cons c cs ih => rw [List.flatMap_cons, pieces_encodeChar, ih, List.map_cons]

/-- Where every piece is a character, all of them together are a text. -/
theorem all_present (cs : List Char) :
    (cs.map some).mapM (id : Option Char → Option Char) = some cs := by
  induction cs with
  | nil => rfl
  | cons c cs ih => rw [List.map_cons, List.mapM_cons, ih]; rfl

/-- The bytes of a text are read back as this text. -/
theorem decode?_encoded (s : String) :
    decode? (s.toList.flatMap String.utf8EncodeChar) = some s := by
  rw [decode?, pieces_encode, all_present, Option.map_some, String.ofList_toList]

end Text

/-- The bytes of a text are those of its characters, one character after the
other. -/
theorem toUTF8_bytes (s : String) :
    s.toUTF8.data.toList = s.toList.flatMap String.utf8EncodeChar := by
  conv => lhs; rw [← String.ofList_toList (s := s)]
  rw [String.toUTF8_eq_toByteArray, String.toByteArray_ofList]
  exact List.toList_data_toByteArray

/-- A variable that is set to the bytes of a text has this text as its value. So
nothing is lost by speaking of texts where the environment has bytes. -/
theorem Variable.ofBytes_encoded (s : String) : ofBytes s.toUTF8.data.toList = .text s := by
  rw [ofBytes, toUTF8_bytes, Text.decode?_encoded]

end GraphMeasures
