/-
The transitions of the counter. Anyone may create it and becomes its owner, anyone may increment
it, and only the owner may reset it. Each transition reads and writes the state of one invocation.
-/
import CounterLedger.Contract
import CounterLedger.Counter.Message
import CounterLedger.Counter.State
import CounterLedger.Counter.Version

namespace CounterLedger.Counter

/-- The name of the contract. -/
def contractName : Bytes := utf8 "go.dedis.ch/cwcounter.Counter"

/-- The version written when the counter is created. -/
def contractVersion : Bytes := utf8 "0.1.0"

/-- A log entry of the contract. -/
def logEntry (level : Log.Level) (message : Bytes) : Log.Entry :=
  { level, message, contract := some contractName }

/-- The response that names the transition. -/
def methodResponse (method : Bytes) : Response := ({} : Response).addAttribute (utf8 "method") method

/-- Creates the state. The sender becomes the owner without any check but that there is one. -/
def instantiate (sender : Address) (m : InstantiateMsg) : Program Response := do
  if sender.isEmpty then .fail (.within .missingSender (.ofKind .invalidInput))
  else
    (Version.set { contract := contractName, version := contractVersion }).within .setVersion
    State.save { owner := sender, counter := m.counter }
    let count := Numeral.decimal m.counter.toNat
    .note { logEntry .info (utf8 "instantiated with count=" ++ count) with owner := some sender.bytes }
    pure (((methodResponse (utf8 "instantiate")).addAttribute (utf8 "owner") sender.bytes).addAttribute
      (utf8 "count") count)

/-! ## Transitions -/

/-- The state after an increment, unless the counter is at its limit. -/
def State.incremented (s : State) : Except Error State :=
  if s.counter.toNat + 1 < UInt64.size then .ok { s with counter := s.counter + 1 }
  else .error (.ofKind .overflow)

/-- The state after a reset by a sender, who has to be the owner. -/
def State.resetBy (sender : Address) (value : UInt64) (s : State) : Except Error State :=
  if sender.equal (.address s.owner) then .ok { s with counter := value }
  else .error (.within (.notOwner sender.bytes) (.ofKind .unauthorized))

/-- The error for a message that a transition is not meant for. -/
def misdirected {α : Type} (c : Context) : Program α := .fail (.within c (.ofKind .shouldNotEnter))

/-- Adds one to the counter. -/
def increment (sender : Address) (m : Given ExecuteMsg) : Program Response :=
  match m with
  | .direct .increment => do
    let s ← State.update State.incremented
    .note { logEntry .debug (utf8 "incremented to " ++ Numeral.decimal s.counter.toNat) with
      sender := some sender.bytes }
    pure (methodResponse (utf8 "increment"))
  | m => misdirected (.incrementWith (m.typeName ExecuteMsg.typeName))

/-- Overwrites the counter. A missing value is reported before the sender is looked at. -/
def reset (sender : Address) (m : Given ExecuteMsg) : Program Response :=
  match m with
  | .direct (.reset none) => .fail (.within .missingValue (.ofKind .invalidInput))
  | .direct (.reset (some value)) => do
    let _ ← State.update (State.resetBy sender value)
    .note { logEntry .info (utf8 "reset to " ++ Numeral.decimal value.toNat) with
      sender := some sender.bytes }
    pure (methodResponse (utf8 "reset"))
  | m => misdirected (.resetWith (m.typeName ExecuteMsg.typeName))

/-- Reads the counter. -/
def getCount (m : Given QueryMsg) : Reading UInt64 :=
  match m with
  | .direct .getCount => do
    let s ← State.load
    pure s.counter
  | m => .fail (.within (.getCountWith (m.typeName QueryMsg.typeName)) (.ofKind .shouldNotEnter))

/-! ## Dispatch -/

/-- Applies the transition of a message. -/
def execute (sender : Address) (m : Given ExecuteMsg) : Program Response :=
  match m with
  | .direct .increment => (increment sender m).within .increment
  | .direct (.reset _) => (reset sender m).within .reset
  | m => misdirected (.unexpectedExecute (m.typeName ExecuteMsg.typeName))

/-- Answers a request. -/
def query (m : Given QueryMsg) : Reading UInt64 :=
  match m with
  | .direct .getCount => (getCount m).within .getCount
  | m => .fail (.within (.unexpectedQuery (m.typeName QueryMsg.typeName)) (.ofKind .shouldNotEnter))

/-- The JSON text of the answer to a request. -/
def encodeCount (n : UInt64) : Bytes := Json.render (.object [(utf8 "count", Json.ofWord n)])

/-- The bytes of a message; an absent message has none. -/
def messageBytes (msg : Payload) : Bytes := msg.getD []

/-- The counter as a contract: it decodes the messages and hands them on. -/
def contract : Contract where
  instantiate _ sender msg := do
    let m ← Program.ofExcept (InstantiateMsg.decode (messageBytes msg))
    instantiate sender m
  execute _ sender msg := do
    let m ← Program.ofExcept (ExecuteMsg.decode (messageBytes msg))
    execute sender (.direct m)
  query _ msg :=
    match QueryMsg.decode (messageBytes msg) with
    | .error e => .fail e
    | .ok m => do
      let n ← query (.direct m)
      pure (some (encodeCount n))

end CounterLedger.Counter
