/-
The state of the counter contract: a single record under one key, read and replaced as a whole
within an invocation.
-/
import CounterLedger.Address
import CounterLedger.Store.Program

namespace CounterLedger.Counter

/-- The persisted record. -/
structure State where
  /-- The caller that created the counter; it never changes. -/
  owner : Address := ⟨[]⟩
  counter : UInt64 := 0
deriving DecidableEq

namespace State

/-- The storage key of the record. -/
def storageKey : Bytes := utf8 "state"

/-- The JSON text of a record. -/
def encode (s : State) : Bytes :=
  Json.render (.object [(utf8 "owner", .string s.owner.bytes), (utf8 "counter", Json.ofWord s.counter)])

/-- Takes a member of an object into the record. A null owner is the empty address, and a null
counter changes nothing; other members are ignored. -/
def member (s : State) (name : Bytes) (v : Json) : Except Json.ReadError State :=
  if Fold.same (utf8 "owner") name then
    match Address.ofJson v with
    | .ok owner => .ok { s with owner }
    | .error e => .error (.address e)
  else if Fold.same (utf8 "counter") name then
    match v.asWord? with
    | .ok counter => .ok { s with counter := counter.getD s.counter }
    | .error e => .error e
  else .ok s

/-- The record of a JSON value. -/
def ofJson (v : Json) : Except Json.ReadError State := Json.fill member {} v

/-- Reads the JSON text of a record. -/
def decode (data : Bytes) : Except Json.ReadError State := Json.readDocument ofJson data

/-- Reads the record from storage. -/
def load : Reading State := do
  match ← (Reading.read storageKey).within .readState with
  | none => .fail (.ofKind .stateNotFound)
  | some data =>
    match decode data with
    | .ok s => pure s
    | .error e => .fail (.fault (.undecodableState e))

/-- Replaces the record in storage. -/
def save (s : State) : Program Unit :=
  (Program.write storageKey (some s.encode)).within .writeState

/-- Loads the record, changes it and saves the result. Nothing is written when the change fails. -/
def update (change : State → Except Error State) : Program State := do
  let s ← load
  let next ← Program.ofExcept (change s)
  save next
  pure next

end State

end CounterLedger.Counter
