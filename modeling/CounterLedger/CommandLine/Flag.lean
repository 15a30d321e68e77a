/-
Flags of a command: named values with a type, a default, and possibly an obligation to be given.
-/
import CounterLedger.Error

namespace CounterLedger.CommandLine

/-- A value of a flag. -/
inductive Value where
  | string (s : Bytes)
  /-- An integer between -2^63 and 2^63 - 1. -/
  | int (n : Int)
  | word (n : UInt64)
  | bool (b : Bool)
deriving DecidableEq

namespace Value

/-- The canonical text of a value. -/
def text : Value → Bytes
  | .string s => s
  | .int n => Numeral.signed n
  | .word n => Numeral.decimal n.toNat
  | .bool true => utf8 "true"
  | .bool false => utf8 "false"

/-- Whether a flag of this type can be given without a value. -/
def isSwitch : Value → Bool
  | .bool _ => true
  | _ => false

/-- Reads a value of the same type from an argument. -/
def read (v : Value) (s : Bytes) : Except Numeral.Refusal Value :=
  match v with
  | .string _ => .ok (.string s)
  | .int _ =>
    match Numeral.integer s with
    | .ok n => .ok (.int n)
    | .error e => .error e
  | .word _ =>
    match Numeral.unsigned s with
    | .ok n => .ok (.word (UInt64.ofNat n))
    | .error e => .error e
  | .bool _ =>
    match Numeral.truth? s with
    | some b => .ok (.bool b)
    | none => .error .malformed

end Value

/-- A flag as it is declared. -/
structure Flag where
  name : Bytes
  usage : Bytes := []
  required : Bool := false
  /-- The value when the flag is not given, which also fixes the type. -/
  value : Value
deriving DecidableEq

namespace Flag

/-- A line of a name up to the first comma or space. -/
def cut (line : Bytes) : Bytes := line.takeWhile fun b => b ≠ 0x2c && b ≠ 0x20

/-- The name under which a flag is given: what follows a comma or a space is a remark. -/
def key (f : Flag) : Bytes := Bytes.join [0x0a] ((Bytes.splitOn 0x0a f.name).map cut)

/-- The flags that a listing shows: all but a switch that shows help. -/
def listed (fs : List Flag) : List Flag := fs.filter fun f => f.name ≠ utf8 "help" || !f.value.isSwitch

/-- The flags of a list in which none may be missing. -/
def supported : List (Option Flag) → Outcome (List Flag)
  | [] => .ok []
  | none :: _ => .abort (some (utf8 "flag type '<nil>' not supported"))
  | some f :: rest => (supported rest).map (f :: ·)

end Flag

end CounterLedger.CommandLine
