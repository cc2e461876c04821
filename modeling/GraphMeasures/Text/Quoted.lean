import GraphMeasures.Text.Extender
import GraphMeasures.Text.Invisible

/-!
# GraphMeasures — texts in quotes

A quoted text can be read off a screen character by character: whatever would
not be seen, or would be drawn on the character before it, is written as its
code point.
-/

namespace GraphMeasures.Text

/-- Whether a character can be seen and stands for itself. The space is the one
separator that does. -/
def isPlain (c : Char) : Bool :=
  c = ' ' || !(invisibleRanges.covers c || extenderRanges.covers c || ignorableRanges.covers c)

/-- The number of a character's code point, in hexadecimal digits. -/
def codePoint (c : Char) : List Char :=
  ['\\', 'u', '\x7b'] ++ Nat.toDigits 16 c.toNat ++ ['\x7d']

/-- A character as it stands inside quotes. -/
def quotedChar (c : Char) : List Char :=
  if c = '"' || c = '\\' then ['\\', c]
  else if c = '\n' then ['\\', 'n']
  else if c = '\r' then ['\\', 'r']
  else if c = '\t' then ['\\', 't']
  else if c = '\x00' then ['\\', '0']
  else if isPlain c then [c]
  else codePoint c

def quoted (s : String) : String :=
  String.ofList ('"' :: s.toList.flatMap quotedChar ++ ['"'])

end GraphMeasures.Text
