/-
Letter case. Names of fields made of ASCII letters are compared up to simple case folding, under
which two characters outside ASCII fold to an ASCII letter: the long s and the Kelvin sign.
-/
import CounterLedger.Text.Utf8

namespace CounterLedger.Fold

/-- The lowercase letter of an ASCII capital; every other byte stays as it is. -/
def lowerByte (b : UInt8) : UInt8 := if 0x41 ≤ b && b ≤ 0x5a then b + 32 else b

/-- The representative of a character under case folding, as far as ASCII letters are concerned. -/
def foldChar (c : Char) : Char :=
  if c = '\u017F' then 's' else if c = '\u212A' then 'k' else c.toLower

/-- The bytes with every character folded. -/
def fold (s : Bytes) : Bytes :=
  (Utf8.pieces s).flatMap fun
    | .char c => String.utf8EncodeChar (foldChar c)
    | .stray b => [b]

/-- Whether a name is the given one, up to case. -/
def same (name given : Bytes) : Bool := given = name || fold given = fold name

/-- The lowercase of a character as far as it meets ASCII: capitals and the dotted capital I. -/
def lowerChar (c : Char) : Char :=
  if c = '\u0130' then 'i' else if c = '\u212A' then 'k' else c.toLower

/-- The text in lowercase, exact on every text whose lowercase is ASCII. -/
def lower (s : String) : String := String.ofList (s.toList.map lowerChar)

end CounterLedger.Fold
