/-
Printing JSON without blanks. Strings are safe to embed in markup: angle brackets, the ampersand
and the two line separators are escaped, and stray bytes are printed as U+FFFD.
-/
import CounterLedger.Json.Basic
import CounterLedger.Text.Numeral
import CounterLedger.Text.Quoted

namespace CounterLedger.Json

/-- The unit escape of a character below U+10000. -/
def unitEscape (n : Nat) : Bytes := utf8 "\\u" ++ Quoted.hexDigits 4 n

/-- One character inside a string. -/
def escapeChar (c : Char) : Bytes :=
  match c.toNat with
  | 0x22 => [0x5c, 0x22]
  | 0x5c => [0x5c, 0x5c]
  | 0x08 => [0x5c, 0x62]
  | 0x0c => [0x5c, 0x66]
  | 0x0a => [0x5c, 0x6e]
  | 0x0d => [0x5c, 0x72]
  | 0x09 => [0x5c, 0x74]
  | n =>
    if n < 0x20 || n = 0x3c || n = 0x3e || n = 0x26 || n = 0x2028 || n = 0x2029 then unitEscape n
    else String.utf8EncodeChar c

/-- The string between its quotes. A stray byte is printed as the character U+FFFD itself and not as
the escape of its unit; both are read as this character. -/
def renderString (s : Bytes) : Bytes :=
  0x22 :: (Utf8.pieces s).flatMap (fun p => escapeChar p.shown) ++ [0x22]

mutual

/-- The text of a value. -/
def render : Json → Bytes
  | .null => utf8 "null"
  | .bool true => utf8 "true"
  | .bool false => utf8 "false"
  | .number literal => literal
  | .string text => renderString text
  | .array vs => 0x5b :: renderItems vs ++ [0x5d]
  | .object ms => 0x7b :: renderMembers ms ++ [0x7d]

/-- The items of an array, separated by commas. -/
def renderItems : List Json → Bytes
  | [] => []
  | [v] => render v
  | v :: vs => render v ++ 0x2c :: renderItems vs

/-- The members of an object, separated by commas. -/
def renderMembers : List (Bytes × Json) → Bytes
  | [] => []
  | [(name, v)] => renderString name ++ 0x3a :: render v
  | (name, v) :: ms => renderString name ++ 0x3a :: (render v ++ 0x2c :: renderMembers ms)

end

/-- The number of an unsigned word. -/
def ofWord (n : UInt64) : Json := .number (Numeral.decimal n.toNat)

end CounterLedger.Json
