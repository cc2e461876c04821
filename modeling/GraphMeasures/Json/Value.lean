/-!
# GraphMeasures — JSON values

A JSON text stands for a `Value`. Numbers are kept in the narrowest of three
forms that holds them: whole numbers up to `2 ^ 64 - 1`, negative whole numbers
down to `-2 ^ 63`, and doubles. A number that is written with a fraction or an
exponent is a double whatever its value.
-/

namespace GraphMeasures.Json

inductive Number where
  | natural (n : UInt64)
  | negative (n : UInt64)
  | double (x : Float)
deriving Repr, BEq

/-- The double nearest to a number. -/
def Number.toFloat : Number → Float
  | .natural n => n.toFloat
  | .negative n => -n.toFloat
  | .double x => x

/-- A JSON value; the members of an object stand as they are written. -/
inductive Value where
  | null
  | boolean (b : Bool)
  | number (n : Number)
  | text (s : String)
  | list (items : List Value)
  | object (members : List (String × Value))
deriving Repr, BEq

/-- What messages call the kind of a value. -/
def Value.kind : Value → String
  | .null => "null"
  | .boolean _ => "boolean"
  | .number _ => "number"
  | .text _ => "string"
  | .list _ => "array"
  | .object _ => "object"

end GraphMeasures.Json
