/-
Numbers as YAML scalars write them: integers with a base, and decimal numbers that a floating-point
number of 64 bits can hold, if only roughly.
-/
import CounterLedger.Text.Numeral

namespace CounterLedger.Yaml.Number

/-! ## Decimal numbers -/

/-- The bytes after the digits at the front. -/
def afterDigits (s : Bytes) : Bytes := s.dropWhile Numeral.isDigit

/-- Whether the bytes start with a digit. -/
def startsWithDigit (s : Bytes) : Bool := s.head?.any Numeral.isDigit

/-- The bytes after an optional sign. -/
def afterSign : Bytes → Bytes
  | s :: rest => if s = 0x2b || s = 0x2d then rest else s :: rest
  | [] => []

/-- A decimal number without a sign: some digits, of which the last `places` stand after the point,
and an exponent. -/
structure Decimal where
  digits : Bytes
  places : Nat
  exponent : Int

/-- The number written by the digits of an exponent. Once it is large, more digits do not count. -/
def exponentOf (digits : Bytes) : Nat :=
  digits.foldl (fun e b => if e < 10000 then 10 * e + (b.toNat - 48) else e) 0

/-- The exponent that the bytes are, or zero if there are none. -/
def exponent? : Bytes → Option Int
  | [] => some 0
  | e :: rest =>
    let digits := afterSign rest
    if (e = 0x65 || e = 0x45) && startsWithDigit digits && (afterDigits digits).isEmpty then
      some (if rest.head? = some 0x2d then -(exponentOf digits : Int) else exponentOf digits)
    else none

/-- The decimal number that the bytes are: with a point, an exponent, both or neither. There is a
digit before the point, or one right after it. -/
def decimal? (s : Bytes) : Option Decimal :=
  let whole := s.takeWhile Numeral.isDigit
  let (fraction, rest) := match afterDigits s with
    | 0x2e :: more => (more.takeWhile Numeral.isDigit, afterDigits more)
    | more => ([], more)
  if whole.isEmpty && fraction.isEmpty then none
  else (exponent? rest).map fun exponent => ⟨whole ++ fraction, fraction.length, exponent⟩

/-- The least number that is rounded to infinity: half a unit above the greatest number that there
is. -/
def limit : Nat := 1 <<< 1024 - 1 <<< 970

/-- Whether the number is below the limit. One with at most 308 digits before the point is, and one
with at least 310 is not. Among the others the whole part decides, because the limit is whole. -/
def Decimal.isFinite (d : Decimal) : Bool :=
  let digits := d.digits.dropWhile (· = 0x30)
  let before : Int := digits.length + d.exponent - d.places
  if digits.isEmpty || before < 309 then true
  else if 309 < before then false
  else
    let whole := digits.take 309
    Numeral.ofDigits (whole ++ List.replicate (309 - whole.length) 0x30) < limit

/-- Whether the bytes are a decimal number without a sign that is not too large. -/
def isFloat (s : Bytes) : Bool := (decimal? s).any Decimal.isFinite

/-! ## Integers -/

/-- Whether the bytes are a sign and binary digits that 64 bits can hold. -/
def isSignedBinary : Bytes → Bool
  | s :: digits =>
    match Numeral.digits 2 0 digits with
    | .ok n => digits ≠ [] && ((s = 0x2d && n ≤ UInt64.size / 2) || (s = 0x2b && n < UInt64.size / 2))
    | .error _ => false
  | [] => false

/-- Whether the bytes are an integer of 64 bits with a sign. The sign of a binary one may also stand
after the mark of its base. -/
def isSigned (s : Bytes) : Bool :=
  (Numeral.integer s).isOk ||
    match s with
    | 0x30 :: 0x62 :: rest => isSignedBinary rest
    | _ => false

/-- Whether the bytes are an integer of 64 bits, with or without a sign. -/
def isInteger (s : Bytes) : Bool := isSigned s || (Numeral.unsigned s).isOk

end CounterLedger.Yaml.Number
