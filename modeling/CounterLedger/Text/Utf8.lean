/-
UTF-8 as a view of byte strings. Any byte string splits into characters and stray bytes, a stray
byte being one that is not part of a valid sequence; replacing each stray byte by U+FFFD repairs
the string.
-/
import CounterLedger.Bytes

namespace CounterLedger.Utf8

/-- A continuation byte. -/
def isContinuation (b : UInt8) : Bool := 0x80 ≤ b && b ≤ 0xbf

/-- The length of the valid sequence at the head of the bytes, or 0 when the first byte is stray. -/
def sequenceLength : Bytes → Nat
  | [] => 0
  | b :: rest =>
    if b < 0x80 then 1
    else if b < 0xc2 then 0
    else if b < 0xe0 then
      match rest with
      | x :: _ => if isContinuation x then 2 else 0
      | _ => 0
    else if b < 0xf0 then
      match rest with
      | x :: y :: _ =>
        let low : UInt8 := if b = 0xe0 then 0xa0 else 0x80
        let high : UInt8 := if b = 0xed then 0x9f else 0xbf
        if low ≤ x && x ≤ high && isContinuation y then 3 else 0
      | _ => 0
    else if b < 0xf5 then
      match rest with
      | x :: y :: z :: _ =>
        let low : UInt8 := if b = 0xf0 then 0x90 else 0x80
        let high : UInt8 := if b = 0xf4 then 0x8f else 0xbf
        if low ≤ x && x ≤ high && isContinuation y && isContinuation z then 4 else 0
      | _ => 0
    else 0

/-- The code point written by a valid sequence. -/
def codePoint : Bytes → Nat
  | [a] => a.toNat
  | [a, b] => (a.toNat % 32) * 64 + b.toNat % 64
  | [a, b, c] => (a.toNat % 16) * 4096 + (b.toNat % 64) * 64 + c.toNat % 64
  | [a, b, c, d] => (a.toNat % 8) * 262144 + (b.toNat % 64) * 4096 + (c.toNat % 64) * 64 + d.toNat % 64
  | _ => 0xfffd

/-- A part of a byte string: a character or a byte that belongs to none. -/
inductive Piece where
  | char (c : Char)
  | stray (b : UInt8)
deriving DecidableEq

/-- Splits the bytes into pieces, after `skip` bytes that belong to the piece before them. -/
def piecesFrom (skip : Nat) (acc : List Piece) : Bytes → List Piece
  | [] => acc.reverse
  | b :: rest =>
    match skip with
    | n + 1 => piecesFrom n acc rest
    | 0 =>
      match sequenceLength (b :: rest) with
      | 0 => piecesFrom 0 (.stray b :: acc) rest
      | n + 1 => piecesFrom n (.char (Char.ofNat (codePoint ((b :: rest).take (n + 1)))) :: acc) rest

/-- The pieces of a byte string, in order. -/
def pieces (s : Bytes) : List Piece := piecesFrom 0 [] s

/-- The character that stands for every stray byte. -/
def replacement : Char := '\uFFFD'

/-- The character shown for a piece. -/
def Piece.shown : Piece → Char
  | .char c => c
  | .stray _ => replacement

/-- The bytes of a piece. -/
def Piece.bytes : Piece → Bytes
  | .char c => String.utf8EncodeChar c
  | .stray b => [b]

/-- The bytes with each stray byte replaced by U+FFFD. -/
def repair (s : Bytes) : Bytes := (pieces s).flatMap fun p => String.utf8EncodeChar p.shown

/-- The text of a byte string, in which U+FFFD stands for each stray byte. -/
def toText (s : Bytes) : String := String.ofList ((pieces s).map Piece.shown)

/-- Whether the bytes are valid UTF-8. -/
def isValid (s : Bytes) : Bool :=
  (pieces s).all fun
    | .char _ => true
    | .stray _ => false

end CounterLedger.Utf8
