/-
Base 64: four characters of an alphabet stand for three bytes, and the last group may be padded.
-/
import CounterLedger.Bytes

namespace CounterLedger.Base64

/-- The value of a character of the alphabet. -/
def value? (b : UInt8) : Option Nat :=
  let n := b.toNat
  if 0x41 ≤ n && n ≤ 0x5a then some (n - 0x41)
  else if 0x61 ≤ n && n ≤ 0x7a then some (n - 0x61 + 26)
  else if 0x30 ≤ n && n ≤ 0x39 then some (n - 0x30 + 52)
  else if n = 0x2b then some 62
  else if n = 0x2f then some 63
  else none

/-- The bytes of a group of two to four characters. Bits that are left over do not count. -/
def group? (s : Bytes) : Option Bytes :=
  match s.mapM value? with
  | some [a, b] => some [UInt8.ofNat (4 * a + b / 16)]
  | some [a, b, c] => some [UInt8.ofNat (4 * a + b / 16), UInt8.ofNat (16 * b + c / 4)]
  | some [a, b, c, d] =>
    some [UInt8.ofNat (4 * a + b / 16), UInt8.ofNat (16 * b + c / 4), UInt8.ofNat (64 * c + d)]
  | _ => none

/-- The bytes of groups of four, of which only the last may be padded. -/
def groups? : Bytes → Option Bytes
  | [] => some []
  | [a, b, 0x3d, 0x3d] => group? [a, b]
  | [a, b, c, 0x3d] => group? [a, b, c]
  | a :: b :: c :: d :: rest =>
    match group? [a, b, c, d], groups? rest with
    | some front, some back => some (front ++ back)
    | _, _ => none
  | _ => none

/-- Decodes a text. Line breaks in it do not count. -/
def decode (s : Bytes) : Option Bytes := groups? (s.filter fun b => b ≠ 0x0a && b ≠ 0x0d)

end CounterLedger.Base64
