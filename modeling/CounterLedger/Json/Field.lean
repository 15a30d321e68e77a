/-
Records in JSON. A record is filled by the members of an object in their order, so the last member
of a name counts; names match up to letter case. The first member that does not fit is reported.
-/
import CounterLedger.Json.Reader
import CounterLedger.Text.Blank
import CounterLedger.Text.Fold
import CounterLedger.Text.Quoted

namespace CounterLedger.Json

/-- Why a record cannot be read. -/
inductive ReadError where
  /-- The record is a bare null. -/
  | nullRecord
  /-- Something follows the record. -/
  | trailing
  /-- A member that the record does not have. -/
  | unknownField (name : Bytes)
  /-- A value of another kind than the field has. -/
  | mismatch (found : Found)
  /-- An address that cannot be read. -/
  | address (cause : ReadError)
  /-- The text is not JSON, ends early or nests too deep. -/
  | malformed
deriving DecidableEq

/-- The wording of a reading error. -/
def ReadError.message : ReadError → Bytes
  | .nullRecord => utf8 "expected an object but got null"
  | .trailing => utf8 "unexpected data after the object"
  | .unknownField name => utf8 "json: unknown field " ++ Quoted.quote name
  | .mismatch found => utf8 "json: cannot unmarshal " ++ found.message
  | .address cause => utf8 "invalid address: " ++ cause.message
  | .malformed => utf8 "json: syntax error"

/-! ## Values of fields -/

/-- An unsigned word, or none for null. -/
def asWord? : Json → Except ReadError (Option UInt64)
  | .null => .ok none
  | .number literal =>
    match Numeral.word? literal with
    | some n => .ok (some n)
    | none => .error (.mismatch (.literal literal))
  | .bool _ => .error (.mismatch .bool)
  | .string _ => .error (.mismatch .string)
  | .array _ => .error (.mismatch .array)
  | .object _ => .error (.mismatch .object)

/-- A text, or none for null. -/
def asText? : Json → Except ReadError (Option Bytes)
  | .null => .ok none
  | .string text => .ok (some text)
  | .number _ => .error (.mismatch .number)
  | .bool _ => .error (.mismatch .bool)
  | .array _ => .error (.mismatch .array)
  | .object _ => .error (.mismatch .object)

/-! ## Records -/

/-- Fills a record with the members of an object. Null leaves the record as it is. -/
def fill {ρ : Type} (member : ρ → Bytes → Json → Except ReadError ρ) (empty : ρ) :
    Json → Except ReadError ρ
  | .null => .ok empty
  | .object ms => ms.foldlM (fun r m => member r m.1 m.2) empty
  | .array _ => .error (.mismatch .array)
  | .string _ => .error (.mismatch .string)
  | .bool _ => .error (.mismatch .bool)
  | .number _ => .error (.mismatch .number)

/-- Reads a document into a record. -/
def readDocument {α : Type} (read : Json → Except ReadError α) (s : Bytes) : Except ReadError α :=
  match document s with
  | some v => read v
  | none => .error .malformed

/-- Whether more data follows: any byte but a closing bracket or brace, after blanks. -/
def more (s : Bytes) : Bool :=
  match skipBlanks s with
  | [] => false
  | b :: _ => b ≠ 0x5d && b ≠ 0x7d

/-- Reads the first value of a stream into a record; only a closing mark may follow it. A bare null is
refused. -/
def readStream {α : Type} (read : Json → Except ReadError α) (s : Bytes) : Except ReadError α :=
  if Blank.trim s = utf8 "null" then .error .nullRecord
  else match first s with
    | none => .error .malformed
    | some (v, rest) =>
      match read v with
      | .error e => .error e
      | .ok r => if more rest then .error .trailing else .ok r

end CounterLedger.Json
