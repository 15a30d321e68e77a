/-
Addresses of callers. The host has verified the caller before a contract runs, so an address is
only ever compared, printed and stored.
-/
import CounterLedger.Error
import CounterLedger.Json.Printer

namespace CounterLedger

/-- The account address of a caller. -/
structure Address where
  bytes : Bytes
deriving DecidableEq

/-- Whatever an address may be compared with. -/
inductive Identity where
  | address (a : Address)
  /-- A reference to an address, which may lead nowhere. -/
  | reference (a : Option Address)
  /-- An identity of another type. -/
  | foreign
  | missing

namespace Address

/-- Whether the other identity is an address with the same bytes. -/
def equal (a : Address) : Identity → Bool
  | .address b => a = b
  | .reference (some b) => a = b
  | .reference none => false
  | .foreign => false
  | .missing => false

/-- Whether the address has not been set. -/
def isEmpty (a : Address) : Bool := a.bytes = []

/-- The JSON text of an address: a string. -/
def encode (a : Address) : Bytes := Json.renderString a.bytes

/-- The address of a JSON value; null is the empty address. -/
def ofJson (v : Json) : Except Json.ReadError Address :=
  match v.asText? with
  | .ok (some text) => .ok ⟨text⟩
  | .ok none => .ok ⟨[]⟩
  | .error e => .error e

/-- Reads the JSON text of an address. -/
def decode (s : Bytes) : Except Error Address :=
  match Json.readDocument ofJson s with
  | .ok a => .ok a
  | .error e => .error (.fault (.undecodableAddress e))

/-- Takes over the address of a JSON text. If it cannot be read, the address stays as it is. -/
def replace (a : Address) (s : Bytes) : Except Error Unit × Address :=
  match decode s with
  | .ok b => (.ok (), b)
  | .error e => (.error e, a)

end Address

end CounterLedger
