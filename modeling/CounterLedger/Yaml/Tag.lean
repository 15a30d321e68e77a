/-
Tags of scalars: what a scalar stands for. A plain scalar without a tag tells it by its text, and a
scalar with a known tag has to fit it.
-/
import CounterLedger.Text.Base64
import CounterLedger.Yaml.Timestamp

namespace CounterLedger.Yaml

/-- A tag that is known. -/
inductive Tag where
  | null
  | bool
  | int
  | float
  | timestamp
  | str
  | binary
  | merge
  | seq
  | map
deriving DecidableEq

namespace Tag

/-- The word for a tag. -/
def word : Tag → Bytes
  | .null => utf8 "null"
  | .bool => utf8 "bool"
  | .int => utf8 "int"
  | .float => utf8 "float"
  | .timestamp => utf8 "timestamp"
  | .str => utf8 "str"
  | .binary => utf8 "binary"
  | .merge => utf8 "merge"
  | .seq => utf8 "seq"
  | .map => utf8 "map"

/-- What the full names of all known tags start with. -/
def namespaceName : Bytes := utf8 "tag:yaml.org,2002:"

/-- The full name of a tag. -/
def name (t : Tag) : Bytes := namespaceName ++ t.word

/-- The name of a tag as it is shown: two exclamation marks stand for what known tags start with. -/
def shown (name : Bytes) : Bytes :=
  if namespaceName.isPrefixOf name then utf8 "!!" ++ name.drop namespaceName.length else name

/-! ## Plain scalars -/

/-- The words for null. -/
def nullWords : List Bytes := [utf8 "", utf8 "~", utf8 "null", utf8 "Null", utf8 "NULL"]

/-- The words for truth values. -/
def boolWords : List Bytes :=
  [utf8 "y", utf8 "Y", utf8 "yes", utf8 "Yes", utf8 "YES", utf8 "true", utf8 "True", utf8 "TRUE",
   utf8 "on", utf8 "On", utf8 "ON", utf8 "n", utf8 "N", utf8 "no", utf8 "No", utf8 "NO",
   utf8 "false", utf8 "False", utf8 "FALSE", utf8 "off", utf8 "Off", utf8 "OFF"]

/-- The words for infinities and for what is not a number. -/
def floatWords : List Bytes :=
  [utf8 ".nan", utf8 ".NaN", utf8 ".NAN", utf8 ".inf", utf8 ".Inf", utf8 ".INF",
   utf8 "+.inf", utf8 "+.Inf", utf8 "+.INF", utf8 "-.inf", utf8 "-.Inf", utf8 "-.INF"]

/-- The bytes without underscores. -/
def bare (s : Bytes) : Bytes := s.filter (· ≠ 0x5f)

/-- The tag of a number, or of a text that starts like one. -/
def ofNumeric (timestamps : Bool) (s : Bytes) : Tag :=
  if timestamps && Timestamp.isTimestamp s then .timestamp
  else if Number.isInteger (bare s) then .int
  else if Number.isFloat (Number.afterSign (bare s)) then .float
  else .str

/-- The tag that a text tells by itself, with or without points in time. -/
def ofText (timestamps : Bool) (s : Bytes) : Tag :=
  if nullWords.contains s then .null
  else if boolWords.contains s then .bool
  else if floatWords.contains s then .float
  else match s with
    | [] => .null
    | c :: _ =>
      if c = 0x2e then (if Numeral.underscoresOk s && Number.isFloat (bare s) then .float else .str)
      else if Numeral.isDigit c || c = 0x2b || c = 0x2d then ofNumeric timestamps s
      else .str

/-! ## Tagged scalars -/

/-- The tags that a text has to fit. -/
def fitted : List Tag := [.null, .bool, .int, .float, .timestamp]

/-- Whether a text fits a tag: it tells that tag by itself, or it is an integer for a number. -/
def fits (t : Tag) (text : Bytes) : Bool :=
  let told := ofText (t = .timestamp) text
  told = t || (t = .float && told = .int && Number.isSigned (bare text))

/-- What a scalar with a tag stands for: a text, or nothing for a null. None when it does not fit
the tag. -/
def meaning (tag text : Bytes) : Option (Option Bytes) :=
  if tag = Tag.binary.name then (Base64.decode text).map some
  else match fitted.find? fun t => t.name = tag with
    | none => some (some text)
    | some t => if t.fits text then some (if t = .null then none else some text) else none

end Tag

end CounterLedger.Yaml
