/-
Points in time as YAML scalars write them: a date, and after it possibly a time of day, either with a
zone after a letter or without one after spaces.
-/
import CounterLedger.Yaml.Number

namespace CounterLedger.Yaml.Timestamp

/-- The days of a month. -/
def daysIn (year month : Nat) : Nat :=
  if month = 2 then (if year % 4 = 0 && (year % 100 ≠ 0 || year % 400 = 0) then 29 else 28)
  else if [4, 6, 9, 11].contains month then 30 else 31

/-- A number of one or two digits, and what follows it. -/
def twoDigits? : Bytes → Option (Nat × Bytes)
  | a :: b :: rest =>
    if !Numeral.isDigit a then none
    else if Numeral.isDigit b then some (Numeral.ofDigits [a, b], rest)
    else some (Numeral.ofDigits [a], b :: rest)
  | [a] => if Numeral.isDigit a then some (Numeral.ofDigits [a], []) else none
  | [] => none

/-- The bytes after a fraction of a second, which starts with a point or a comma. -/
def afterFraction (s : Bytes) : Bytes :=
  match s with
  | p :: rest =>
    if (p = 0x2e || p = 0x2c) && Number.startsWithDigit rest then Number.afterDigits rest else s
  | [] => []

/-- Whether the bytes are a zone: a letter for the meridian, or hours and minutes from it. -/
def isZone : Bytes → Bool
  | [0x5a] => true
  | [sign, a, b, 0x3a, c, d] =>
    (sign = 0x2b || sign = 0x2d) && [a, b, c, d].all Numeral.isDigit &&
      Numeral.ofDigits [a, b] ≤ 24 && Numeral.ofDigits [c, d] ≤ 60
  | _ => false

/-- What follows a time of day: hours, minutes, seconds and a fraction of a second. -/
def afterTime? (s : Bytes) : Option Bytes :=
  match twoDigits? s with
  | some (h, 0x3a :: s₁) =>
    match twoDigits? s₁ with
    | some (m, 0x3a :: s₂) =>
      match twoDigits? s₂ with
      | some (sec, rest) => if h < 24 && m < 60 && sec < 60 then some (afterFraction rest) else none
      | none => none
    | _ => none
  | _ => none

/-- What follows a date with a year of four digits. -/
def afterDate? (s : Bytes) : Option Bytes :=
  if !(s.take 4).all Numeral.isDigit then none
  else match s.drop 4 with
    | 0x2d :: s₁ =>
      match twoDigits? s₁ with
      | some (month, 0x2d :: s₂) =>
        match twoDigits? s₂ with
        | some (day, rest) =>
          let year := Numeral.ofDigits (s.take 4)
          if 1 ≤ month && month ≤ 12 && 1 ≤ day && day ≤ daysIn year month then some rest else none
        | none => none
      | _ => none
    | _ => none

/-- Whether the bytes are a point in time. -/
def isTimestamp (s : Bytes) : Bool :=
  match afterDate? s with
  | none => false
  | some [] => true
  | some (0x20 :: rest) => afterTime? (rest.dropWhile (· = 0x20)) = some []
  | some (t :: rest) => (t = 0x54 || t = 0x74) && (afterTime? rest).any isZone

end CounterLedger.Yaml.Timestamp
