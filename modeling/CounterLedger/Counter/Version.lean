/-
The version record: which contract, at which version, wrote a storage. It is kept under a key of
its own in the storage of the contract.
-/
import CounterLedger.Json.Printer
import CounterLedger.Store.Program

namespace CounterLedger

/-- The version record of a contract. -/
structure Version where
  contract : Bytes := []
  version : Bytes := []
deriving DecidableEq

namespace Version

/-- The storage key of the record. -/
def storageKey : Bytes := utf8 "contract_info"

/-- The JSON text of a record. -/
def encode (v : Version) : Bytes :=
  Json.render (.object [(utf8 "contract", .string v.contract), (utf8 "version", .string v.version)])

/-- Takes a member of an object into the record; null changes nothing, other names are ignored. -/
def member (v : Version) (name : Bytes) (j : Json) : Except Json.ReadError Version :=
  if Fold.same (utf8 "contract") name then
    j.asText?.map fun text => { v with contract := text.getD v.contract }
  else if Fold.same (utf8 "version") name then
    j.asText?.map fun text => { v with version := text.getD v.version }
  else .ok v

/-- Reads the JSON text of a record. -/
def decode (data : Bytes) : Except Json.ReadError Version :=
  Json.readDocument (Json.fill member {}) data

/-- Writes the record. -/
def set (v : Version) : Program Unit :=
  (Program.write storageKey (some v.encode)).within .writeVersion

/-- Reads the record. -/
def get : Reading Version := do
  match ← (Reading.read storageKey).within .readVersion with
  | none => .fail (.ofKind .versionNotFound)
  | some data =>
    match decode data with
    | .ok v => pure v
    | .error e => .fail (.fault (.undecodableVersion e))

end Version

end CounterLedger
