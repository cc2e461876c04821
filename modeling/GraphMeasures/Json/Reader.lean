import GraphMeasures.Json.Number
import GraphMeasures.Text.Character

/-!
# GraphMeasures — reading JSON texts

`Value.read?` reads a text that is one JSON value with white space around it
and nothing else; it answers `none` for every other text. The grammar is the
strict one of RFC 8259: no comments, no trailing commas, no leading zeros, no
raw control characters in strings, escapes of surrogates in pairs only. Lists
and objects may be nested 127 deep (`maxDepth`).

Every reader takes characters from the front and returns those that are left.
The readers that call each other get a `fuel`. A value needs at most one unit
more than it has characters, since every list and every object has two of its
own, so the fuel of `Value.read?` runs out on no text that is JSON.
-/

namespace GraphMeasures.Json

/-- How deep lists and objects may be nested. -/
def maxDepth : Nat := 127

/-- The white space that may stand between tokens. -/
def isSpace (c : Char) : Bool :=
  c = ' ' || c = '\t' || c = '\n' || c = '\r'

/-- What is left behind leading white space. -/
def skipSpace (cs : List Char) : List Char :=
  cs.dropWhile isSpace

/-! ## Numbers -/

/-- The digits at the front, and what is left. -/
def readDigits (found : List Nat) : List Char → List Nat × List Char
  | [] => (found.reverse, [])
  | c :: rest =>
    match Text.digit? c with
    | some d => readDigits (d :: found) rest
    | none => (found.reverse, c :: rest)

/-- Digits before the point: a zero alone, or a number that starts with no
zero. -/
def readWhole? (cs : List Char) : Option (List Nat × List Char) :=
  match readDigits [] cs with
  | ([], _) => none
  | (0 :: _ :: _, _) => none
  | found => some found

/-- A point with at least one digit behind it, if there is a point. -/
def readFraction? : List Char → Option (Option (List Nat) × List Char)
  | '.' :: cs =>
    match readDigits [] cs with
    | ([], _) => none
    | (digits, rest) => some (some digits, rest)
  | cs => some (none, cs)

/-- The digits of an exponent, at least one. -/
def readPower? (minus : Bool) (cs : List Char) : Option (Option Int × List Char) :=
  match readDigits [] cs with
  | ([], _) => none
  | (digits, rest) =>
    let power : Int := Text.digitsValue digits
    some (some (if minus then -power else power), rest)

/-- An exponent, if there is one. -/
def readExponent? : List Char → Option (Option Int × List Char)
  | c :: cs =>
    if c = 'e' || c = 'E' then
      match cs with
      | '+' :: rest => readPower? false rest
      | '-' :: rest => readPower? true rest
      | rest => readPower? false rest
    else some (none, c :: cs)
  | [] => some (none, [])

def readNumeral? (cs : List Char) : Option (Numeral × List Char) := do
  let (minus, cs) := match cs with
    | '-' :: rest => (true, rest)
    | rest => (false, rest)
  let (whole, cs) ← readWhole? cs
  let (fraction, cs) ← readFraction? cs
  let (exponent, cs) ← readExponent? cs
  return (⟨minus, whole, fraction, exponent⟩, cs)

/-! ## Strings -/

def hexDigit? (c : Char) : Option Nat :=
  if '0' ≤ c && c ≤ '9' then some (c.toNat - '0'.toNat)
  else if 'a' ≤ c && c ≤ 'f' then some (c.toNat - 'a'.toNat + 10)
  else if 'A' ≤ c && c ≤ 'F' then some (c.toNat - 'A'.toNat + 10)
  else none

/-- The number that four hexadecimal digits spell. -/
def hexUnit? (a b c d : Char) : Option Nat := do
  return (← hexDigit? a) * 0x1000 + (← hexDigit? b) * 0x100 + (← hexDigit? c) * 0x10 + (← hexDigit? d)

/-- The character that a letter behind a backslash stands for. -/
def escaped? : Char → Option Char
  | '"' => some '"'
  | '\\' => some '\\'
  | '/' => some '/'
  | 'b' => some '\x08'
  | 'f' => some '\x0c'
  | 'n' => some '\n'
  | 'r' => some '\r'
  | 't' => some '\t'
  | _ => none

/-- The rest of a string behind its opening quote. A unit from D800 to DBFF
must be followed by one from DC00 to DFFF, and no other unit may be one of
these. -/
def readString? (found : List Char) : List Char → Option (String × List Char)
  | [] => none
  | '"' :: rest => some (String.ofList found.reverse, rest)
  | '\\' :: 'u' :: a :: b :: c :: d :: rest =>
    match hexUnit? a b c d with
    | none => none
    | some high =>
      if 0xD800 ≤ high && high ≤ 0xDBFF then
        match rest with
        | '\\' :: 'u' :: e :: f :: g :: h :: rest =>
          match hexUnit? e f g h with
          | none => none
          | some low =>
            if 0xDC00 ≤ low && low ≤ 0xDFFF then
              let point := 0x10000 + (high - 0xD800) * 0x400 + (low - 0xDC00)
              readString? (Char.ofNat point :: found) rest
            else none
        | _ => none
      else if 0xDC00 ≤ high && high ≤ 0xDFFF then none
      else readString? (Char.ofNat high :: found) rest
  | '\\' :: c :: rest =>
    match escaped? c with
    | some e => readString? (e :: found) rest
    | none => none
  | c :: rest => if c.toNat < 0x20 || c = '\\' then none else readString? (c :: found) rest

/-! ## Values -/

/-- Takes a fixed word from the front. -/
def readWord? (word : List Char) (value : Value) (cs : List Char) : Option (Value × List Char) :=
  if word.isPrefixOf cs then some (value, cs.drop word.length) else none

mutual

def readValue? (fuel depth : Nat) (cs : List Char) : Option (Value × List Char) :=
  match fuel with
  | 0 => none
  | fuel + 1 =>
    match cs with
    | '"' :: rest => (readString? [] rest).map fun (s, rest) => (.text s, rest)
    | '[' :: rest =>
      if depth = 0 then none
      else match skipSpace rest with
        | ']' :: rest => some (.list [], rest)
        | rest => readItems? fuel (depth - 1) [] rest
    | '{' :: rest =>
      if depth = 0 then none
      else match skipSpace rest with
        | '}' :: rest => some (.object [], rest)
        | rest => readMembers? fuel (depth - 1) [] rest
    | 'n' :: _ => readWord? "null".toList .null cs
    | 't' :: _ => readWord? "true".toList (.boolean true) cs
    | 'f' :: _ => readWord? "false".toList (.boolean false) cs
    | _ => do
      let (numeral, rest) ← readNumeral? cs
      return (.number (← numeral.value?), rest)

/-- The items of a list up to its closing bracket, one at least. -/
def readItems? (fuel depth : Nat) (found : List Value) (cs : List Char) :
    Option (Value × List Char) :=
  match fuel with
  | 0 => none
  | fuel + 1 =>
    match readValue? fuel depth (skipSpace cs) with
    | none => none
    | some (item, rest) =>
      match skipSpace rest with
      | ',' :: rest => readItems? fuel depth (item :: found) rest
      | ']' :: rest => some (.list (item :: found).reverse, rest)
      | _ => none

/-- The members of an object up to its closing brace, one at least. -/
def readMembers? (fuel depth : Nat) (found : List (String × Value)) (cs : List Char) :
    Option (Value × List Char) :=
  match fuel with
  | 0 => none
  | fuel + 1 =>
    match skipSpace cs with
    | '"' :: rest =>
      match readString? [] rest with
      | none => none
      | some (name, rest) =>
        match skipSpace rest with
        | ':' :: rest =>
          match readValue? fuel depth (skipSpace rest) with
          | none => none
          | some (value, rest) =>
            match skipSpace rest with
            | ',' :: rest => readMembers? fuel depth ((name, value) :: found) rest
            | '}' :: rest => some (.object ((name, value) :: found).reverse, rest)
            | _ => none
        | _ => none
    | _ => none

end

/-- The value that a text stands for, if the text is JSON. -/
def Value.read? (s : String) : Option Value :=
  let cs := s.toList
  match readValue? (cs.length + 1) maxDepth (skipSpace cs) with
  | some (value, rest) => if (skipSpace rest).isEmpty then some value else none
  | none => none

end GraphMeasures.Json
