/-
The service that runs contracts by name. It keeps each contract in a namespace of its own, marks a
contract when it is instantiated so that this happens once, applies the writes of an invocation
only when it succeeds, and reports each invocation to the log and to the metrics.
-/
import CounterLedger.Metrics
import CounterLedger.Store.Namespace
import CounterLedger.Store.Overlay

namespace CounterLedger

/-- The state-changing entry points. -/
inductive Action where
  | instantiate
  | execute
deriving DecidableEq

/-- The entry point of an action. -/
def Action.entry : Action → Entry
  | .instantiate => .instantiate
  | .execute => .execute

/-- The contracts of a service by name. A name may be taken by no contract at all. -/
structure Service where
  contracts : Table (Option Contract) := Table.empty

/-- An invocation after it ended: its outcome, the store, what was logged, and the status that was
counted, if any was. -/
structure Invoked (α σ : Type) where
  outcome : Outcome α
  state : σ
  logs : List Log.Entry := []
  counted : Option Status := none

namespace Service

variable {σ α : Type}

/-- Gives a name to a contract; a name is given once. -/
def register (sv : Service) (name : Bytes) (c : Option Contract) : Outcome Service :=
  if sv.contracts.contains name then
    .abort (some (utf8 "contract " ++ inQuotes name ++ utf8 " already registered"))
  else .ok { contracts := sv.contracts.insert name c }

/-- The contract of a name, if there is one. -/
def find? (sv : Service) (name : Bytes) : Option Contract := (sv.contracts.get? name).getD none

/-! ## Markers -/

/-- The namespace of the markers. -/
def markerSpace : Bytes := utf8 "go.dedis.ch/cwcounter.native"

/-- The key of the marker of a contract. -/
def markerKey (name : Bytes) : Bytes := Namespace.key markerSpace name

/-- Whether the contract has been instantiated in the store. -/
def isInstantiated (name : Bytes) : Reading Bool := do
  let v ← (Reading.read (markerKey name)).within .readMarker
  pure v.isSome

/-! ## Invocations -/

/-- The work of an invocation: the marker is looked at first, then the contract runs in its own
namespace, and a first instantiation leaves the marker. -/
def body (c : Contract) (action : Action) (name : Bytes) (env : Env) (sender : Address)
    (msg : Payload) : Program Response := do
  let found ← isInstantiated name
  match action with
  | .instantiate =>
    if found then .fail (.fault (.alreadyInstantiated name))
    else
      let res ← (c.instantiate env sender msg).scoped name
      (Program.write (markerKey name) (some [1])).within .writeMarker
      pure res
  | .execute =>
    if found then (c.execute env sender msg).scoped name
    else .fail (.fault (.notInstantiated name))

/-- The log entry of an invocation that ended with a result or an error. -/
def logEntry (entry : Entry) (name : Bytes) (env : Env) (sender : Address) (error : Option Error) :
    Log.Entry :=
  let status := if error.isSome then Status.rejected else Status.accepted
  { level := if error.isSome then .info else .debug
    message := utf8 "invocation " ++ status.name
    service := some (utf8 "native")
    contract := some name
    entry := some entry.name
    height := some env.height
    sender := if sender.isEmpty then none else some sender.bytes
    error := error }

/-- Counts and logs an invocation, unless it was aborted. -/
def report (entry : Entry) (name : Bytes) (env : Env) (sender : Address) (outcome : Outcome α)
    (state : σ) (logs : List Log.Entry) : Invoked α σ :=
  match outcome with
  | .ok _ =>
    { outcome, state, counted := some .accepted,
      logs := logs ++ [logEntry entry name env sender none] }
  | .error e =>
    { outcome, state, counted := some .rejected,
      logs := logs ++ [logEntry entry name env sender (some e)] }
  | .abort _ => { outcome, state, logs }

/-- Runs a state-changing entry point of a contract. Its writes are staged, and committed in the order
in which they are visited; a name without a contract is refused before anything is counted. -/
def invokeIn (sv : Service) (visit : Table Change → List (Bytes × Change)) (s : Store σ) (action : Action)
    (name : Bytes) (env : Env) (sender : Address) (msg : Payload) (st : σ) : Invoked Response σ :=
  match sv.find? name with
  | none => { outcome := .error (.fault (.unknownContract name)), state := st }
  | some c =>
    let ran := (body c action name env sender msg).run (Overlay.store s.toSource) { base := st }
    let (outcome, st') := s.settleIn visit (ran.outcome, ran.state)
    report action.entry name env sender outcome st' ran.logs

/-- Runs a state-changing entry point of a contract, and commits in the ascending order of the keys. -/
def invoke (sv : Service) (s : Store σ) (action : Action) (name : Bytes) (env : Env)
    (sender : Address) (msg : Payload) (st : σ) : Invoked Response σ :=
  sv.invokeIn Table.entries s action name env sender msg st

/-- Runs the query of a contract on its namespace. -/
def query (sv : Service) (s : Source σ) (name : Bytes) (env : Env) (msg : Payload) (st : σ) :
    Invoked Payload σ :=
  match sv.find? name with
  | none => { outcome := .error (.fault (.unknownContract name)), state := st }
  | some c =>
    let (outcome, st') := ((c.query env msg).scoped name).run s st
    report .query name env ⟨[]⟩ outcome st' []

end Service

end CounterLedger
