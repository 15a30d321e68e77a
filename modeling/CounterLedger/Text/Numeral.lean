/-
Numbers as text: decimal digits as printed and as read from messages, and the numerals accepted on
a command line, which may carry a base and underscores between digits.
-/
import CounterLedger.Text.Fold

namespace CounterLedger.Numeral

/-- The digits of a number in base ten, without leading zeros. -/
def decimal (n : Nat) : Bytes := (Nat.toDigits 10 n).map fun c => UInt8.ofNat c.toNat

/-- The decimal text of an integer, with a minus sign when it is negative. -/
def signed : Int → Bytes
  | .ofNat n => decimal n
  | .negSucc n => 0x2d :: decimal (n + 1)

/-- Whether the byte is a decimal digit. -/
def isDigit (b : UInt8) : Bool := 0x30 ≤ b && b ≤ 0x39

/-- The number written by decimal digits, whatever their count. -/
def ofDigits (s : Bytes) : Nat := s.foldl (fun n b => 10 * n + (b.toNat - 48)) 0

/-- The number written by decimal digits that follow the given one, if it fits into 64 bits. None of
the digits counts any more once it does not. -/
def wordFrom (n : Nat) : Bytes → Option Nat
  | [] => if n < UInt64.size then some n else none
  | b :: rest => if isDigit b && n < UInt64.size then wordFrom (10 * n + (b.toNat - 48)) rest else none

/-- The unsigned word written by a literal made of digits only, if it fits. -/
def word? (s : Bytes) : Option UInt64 :=
  if s = [] then none else (wordFrom 0 s).map UInt64.ofNat

/-! ## Numerals with a base -/

/-- Why a numeral is refused. -/
inductive Refusal where
  | malformed
  | range
deriving DecidableEq

/-- The value of a digit or of a letter as a digit. -/
def digitValue (b : UInt8) : Option Nat :=
  if isDigit b then some (b.toNat - 48)
  else
    let l := Fold.lowerByte b
    if 0x61 ≤ l && l ≤ 0x7a then some (l.toNat - 87) else none

/-- Reads digits from left to right. The first fault counts: a number that has already outgrown 64
bits is out of range, whatever follows. -/
def digits (base : Nat) : Nat → Bytes → Except Refusal Nat
  | n, [] => .ok n
  | n, b :: rest =>
    if b = 0x5f then digits base n rest
    else match digitValue b with
      | none => .error .malformed
      | some d =>
        if base ≤ d then .error .malformed
        else if UInt64.size ≤ base * n + d then .error .range
        else digits base (base * n + d) rest

/-- The base named by the letter after a leading zero. -/
def baseOf (letter : UInt8) : Option Nat :=
  match Fold.lowerByte letter with
  | 0x62 => some 2
  | 0x6f => some 8
  | 0x78 => some 16
  | _ => none

/-- The base of a numeral and what follows its mark: a leading zero alone marks base eight. -/
def splitBase : Bytes → Nat × Bytes
  | 0x30 :: letter :: d :: rest =>
    match baseOf letter with
    | some base => (base, d :: rest)
    | none => (8, letter :: d :: rest)
  | 0x30 :: rest => (8, rest)
  | s => (10, s)

/-- Whether each underscore stands between digits; the mark of a base counts as a digit. -/
def underscoresFrom (hex : Bool) (afterDigit afterUnderscore : Bool) : Bytes → Bool
  | [] => !afterUnderscore
  | b :: rest =>
    if isDigit b || (hex && 0x61 ≤ Fold.lowerByte b && Fold.lowerByte b ≤ 0x66) then
      underscoresFrom hex true false rest
    else if b = 0x5f then afterDigit && underscoresFrom hex false true rest
    else !afterUnderscore && underscoresFrom hex false false rest

/-- Whether the underscores of a whole numeral are well placed. -/
def underscoresOk (s : Bytes) : Bool :=
  match s with
  | 0x30 :: letter :: rest =>
    match baseOf letter with
    | some base => underscoresFrom (base = 16) true false rest
    | none => underscoresFrom false false false s
  | _ => underscoresFrom false false false s

/-- The number below 2^64 of an unsigned numeral. -/
def unsigned (s : Bytes) : Except Refusal Nat :=
  if s = [] then .error .malformed
  else
    let (base, body) := splitBase s
    match digits base 0 body with
    | .error e => .error e
    | .ok n => if s.contains 0x5f && !underscoresOk s then .error .malformed else .ok n

/-- The number of a numeral with an optional sign, between -2^63 and 2^63 - 1. -/
def integer (s : Bytes) : Except Refusal Int :=
  match s with
  | 0x2d :: body =>
    match unsigned body with
    | .error e => .error e
    | .ok n => if UInt64.size / 2 < n then .error .range else .ok (-(n : Int))
  | 0x2b :: body => nonNegative body
  | _ => nonNegative s
where
  nonNegative (body : Bytes) : Except Refusal Int :=
    match unsigned body with
    | .error e => .error e
    | .ok n => if UInt64.size / 2 ≤ n then .error .range else .ok (n : Int)

/-- The truth value of a word. -/
def truth? (s : Bytes) : Option Bool :=
  if [utf8 "1", utf8 "t", utf8 "T", utf8 "true", utf8 "TRUE", utf8 "True"].contains s then some true
  else if [utf8 "0", utf8 "f", utf8 "F", utf8 "false", utf8 "FALSE", utf8 "False"].contains s then
    some false
  else none

end CounterLedger.Numeral
