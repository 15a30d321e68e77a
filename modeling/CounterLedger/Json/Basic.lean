/-
JSON values. A number keeps the literal it was written with, because whether it fits a field is
decided on the literal; strings and names are held decoded.
-/
import CounterLedger.Bytes

namespace CounterLedger

/-- A JSON value. -/
inductive Json where
  | null
  | bool (b : Bool)
  | number (literal : Bytes)
  | string (text : Bytes)
  | array (items : List Json)
  | object (members : List (Bytes × Json))

namespace Json

/-- What stands in a place where something else is expected. -/
inductive Found where
  | array
  | object
  | string
  | bool
  | number
  /-- A number that the field cannot hold. -/
  | literal (text : Bytes)
deriving DecidableEq

/-- The wording of what was found. -/
def Found.message : Found → Bytes
  | .array => utf8 "array"
  | .object => utf8 "object"
  | .string => utf8 "string"
  | .bool => utf8 "bool"
  | .number => utf8 "number"
  | .literal text => utf8 "number " ++ text

/-- The kind of a value; null, which fits every place, has none. -/
def found? : Json → Option Found
  | .null => none
  | .bool _ => some .bool
  | .number _ => some .number
  | .string _ => some .string
  | .array _ => some .array
  | .object _ => some .object

end Json

end CounterLedger
