/-
The messages of the counter contract and their JSON form. A message that is one of several is an
object with a single member named by the variant. Decoding is strict: unknown members, null bodies
and data after the message are refused.
-/
import CounterLedger.Error
import CounterLedger.Json.Printer
import CounterLedger.Table

namespace CounterLedger.Counter

/-- The message that creates the counter. -/
structure InstantiateMsg where
  /-- The initial value. -/
  counter : UInt64
deriving DecidableEq

/-- The transitions of the counter. -/
inductive ExecuteMsg where
  /-- Adds one; anyone may do it. -/
  | increment
  /-- Overwrites the counter; only the owner may do it, and the value is required. -/
  | reset (value : Option UInt64)
deriving DecidableEq

/-- The requests that only read. -/
inductive QueryMsg where
  | getCount
deriving DecidableEq

/-- A message as it is handed to the handler. Only a message given directly is recognised. -/
inductive Given (α : Type) where
  | direct (m : α)
  | reference (m : α)
  | missing
deriving DecidableEq

/-- The name by which errors call the form of a message. -/
def Given.typeName {α : Type} (name : α → Bytes) : Given α → Bytes
  | .direct m => name m
  | .reference m => 0x2a :: name m
  | .missing => utf8 "<nil>"

/-- The name of the type of a transition. -/
def ExecuteMsg.typeName : ExecuteMsg → Bytes
  | .increment => utf8 "counter.Increment"
  | .reset _ => utf8 "counter.Reset"

/-- The name of the type of a request. -/
def QueryMsg.typeName : QueryMsg → Bytes
  | .getCount => utf8 "counter.GetCount"

/-! ## Encoding -/

/-- An input error in a context. -/
def invalid {α : Type} (c : Context) : Except Error α := .error (.within c (.ofKind .invalidInput))

/-- The JSON value of a value that may be missing. -/
def optionalWord : Option UInt64 → Json
  | some n => Json.ofWord n
  | none => .null

/-- The JSON text of the message that creates the counter. -/
def InstantiateMsg.encode (m : InstantiateMsg) : Bytes :=
  Json.render (.object [(utf8 "counter", Json.ofWord m.counter)])

/-- The JSON text of a transition. -/
def ExecuteMsg.encode : ExecuteMsg → Bytes
  | .increment => Json.render (.object [(utf8 "increment", .object [])])
  | .reset value =>
    Json.render (.object [(utf8 "reset", .object [(utf8 "value", optionalWord value)])])

/-- The JSON text of a request. -/
def QueryMsg.encode : QueryMsg → Bytes
  | .getCount => Json.render (.object [(utf8 "get_count", .object [])])

/-- Encodes what was given; a reference encodes like the message itself. -/
def Given.encode {α : Type} (text : α → Bytes) : Given α → Except Error Bytes
  | .direct m => .ok (text m)
  | .reference m => .ok (text m)
  | .missing => invalid .missingMessage

/-! ## Decoding -/

/-- A record with a single optional word under the given name, from the members of an object. -/
def wordField (field : Bytes) (_ : Option UInt64) (name : Bytes) (v : Json) :
    Except Json.ReadError (Option UInt64) :=
  if Fold.same field name then v.asWord? else .error (.unknownField name)

/-- A record without fields. -/
def noField (_ : Unit) (name : Bytes) (_ : Json) : Except Json.ReadError Unit :=
  .error (.unknownField name)

/-- Reads the message that creates the counter. The counter is required. -/
def InstantiateMsg.decode (data : Bytes) : Except Error InstantiateMsg :=
  match Json.readStream (Json.fill (wordField (utf8 "counter")) none) data with
  | .error e => invalid (.malformed (utf8 "instantiate message") e)
  | .ok none => invalid .missingCounter
  | .ok (some n) => .ok ⟨n⟩

/-- The name of a message that is one of several, and its body as it is written. Of members with the
same name the last one counts. -/
def decodeVariant (data : Bytes) : Except Error (Bytes × Bytes) :=
  match Json.document data with
  | none => malformed .malformed
  | some .null => invalid (.variantCount 0)
  | some (.object _) =>
    match (Table.ofList (Json.writtenMembers data)).entries with
    | [(name, body)] => .ok (name, body.text)
    | variants => invalid (.variantCount variants.length)
  | some (.array _) => malformed (.mismatch .array)
  | some (.string _) => malformed (.mismatch .string)
  | some (.bool _) => malformed (.mismatch .bool)
  | some (.number _) => malformed (.mismatch .number)
where
  malformed (e : Json.ReadError) : Except Error (Bytes × Bytes) :=
    invalid (.malformed (utf8 "message") e)

/-- Reads the body of a variant. -/
def decodeBody {α : Type} (name : Bytes) (read : Json → Except Json.ReadError α) (body : Bytes) :
    Except Error α :=
  match Json.readStream read body with
  | .ok a => .ok a
  | .error e => invalid (.malformed name e)

/-- Reads a transition. -/
def ExecuteMsg.decode (data : Bytes) : Except Error ExecuteMsg :=
  match decodeVariant data with
  | .error e => .error e
  | .ok (name, body) =>
    if name = utf8 "increment" then
      (decodeBody name (Json.fill noField ()) body).map fun _ => .increment
    else if name = utf8 "reset" then
      (decodeBody name (Json.fill (wordField (utf8 "value")) none) body).map .reset
    else invalid (.unknownExecute name)

/-- Reads a request. -/
def QueryMsg.decode (data : Bytes) : Except Error QueryMsg :=
  match decodeVariant data with
  | .error e => .error e
  | .ok (name, body) =>
    if name = utf8 "get_count" then
      (decodeBody name (Json.fill noField ()) body).map fun _ => .getCount
    else invalid (.unknownQuery name)

end CounterLedger.Counter
