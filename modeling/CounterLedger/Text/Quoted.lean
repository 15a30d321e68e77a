/-
Quoted text for messages. A byte string is written between double quotes so that everything that
cannot be printed is visible: stray bytes and controls as two hexadecimal digits, other unprintable
characters by their code point.
-/
import CounterLedger.Text.Printable
import CounterLedger.Text.Utf8

namespace CounterLedger.Quoted

/-- The last `width` hexadecimal digits of a number. -/
def hexDigits : Nat → Nat → Bytes
  | 0, _ => []
  | width + 1, n => hexDigits width (n / 16) ++ [Bytes.hexDigit (n % 16)]

/-- The letter that follows the backslash for a control with a short escape. -/
def shortEscape (c : Char) : Option UInt8 :=
  match c.toNat with
  | 7 => some 0x61
  | 8 => some 0x62
  | 9 => some 0x74
  | 10 => some 0x6e
  | 11 => some 0x76
  | 12 => some 0x66
  | 13 => some 0x72
  | _ => none

/-- One character, escaped when it is a quote, a backslash or not printable. -/
def char (c : Char) : Bytes :=
  if c = '"' || c = '\\' then 0x5c :: String.utf8EncodeChar c
  else if Printable.isPrintable c then String.utf8EncodeChar c
  else match shortEscape c with
    | some e => [0x5c, e]
    | none =>
      if c.toNat < 0x20 || c.toNat = 0x7f then utf8 "\\x" ++ hexDigits 2 c.toNat
      else if c.toNat < 0x10000 then utf8 "\\u" ++ hexDigits 4 c.toNat
      else utf8 "\\U" ++ hexDigits 8 c.toNat

/-- One piece of a byte string. -/
def piece : Utf8.Piece → Bytes
  | .char c => char c
  | .stray b => utf8 "\\x" ++ hexDigits 2 b.toNat

/-- The byte string between double quotes. -/
def quote (s : Bytes) : Bytes :=
  0x22 :: (Utf8.pieces s).flatMap piece ++ [0x22]

end CounterLedger.Quoted
