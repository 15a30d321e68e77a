/-
Blank characters: those with the Unicode property White_Space, which are cut off at both ends of
a message before it is compared with a bare word.
-/
import CounterLedger.Text.Utf8

namespace CounterLedger.Blank

/-- Whether the character is white space. -/
def isBlank (c : Char) : Bool :=
  let n := c.toNat
  (9 ≤ n && n ≤ 13) || n = 0x20 || n = 0x85 || n = 0xa0 || n = 0x1680 || (0x2000 ≤ n && n ≤ 0x200a) ||
    n = 0x2028 || n = 0x2029 || n = 0x202f || n = 0x205f || n = 0x3000

/-- Whether a piece of a byte string is a blank character; a stray byte is not. -/
def isBlankPiece : Utf8.Piece → Bool
  | .char c => isBlank c
  | .stray _ => false

/-- The bytes without the blank characters at both ends. -/
def trim (s : Bytes) : Bytes :=
  let front := (Utf8.pieces s).dropWhile isBlankPiece
  ((front.reverse.dropWhile isBlankPiece).reverse).flatMap Utf8.Piece.bytes

end CounterLedger.Blank
