/-
The host of a ledger. Every state-changing call runs in one transaction of the database: the writes
of the contract are committed together with the new height, or not at all.
-/
import CounterLedger.Counter.Version
import CounterLedger.Database.Transaction
import CounterLedger.Service

namespace CounterLedger

namespace Host

/-- The bucket with the storage of the contracts. -/
def stateBucket : Bytes := utf8 "state"

/-- The bucket with the bookkeeping of the host. -/
def hostBucket : Bytes := utf8 "host"

/-- The key of the height. -/
def heightKey : Bytes := utf8 "height"

/-- The chain identifier when none is configured. -/
def defaultChain : Bytes := utf8 "cwcounter"

/-- A way in which the database fails the host. -/
inductive Breakdown where
  /-- No read-only transaction can be begun. -/
  | view
  /-- No update can be begun. -/
  | update
  | hostBucket
  | stateBucket
  | hostSet
  | stateSet
  /-- Updates are committed, but their callbacks are lost. -/
  | noCallbacks
deriving DecidableEq

end Host

/-- A host with its contracts and its database. -/
structure Host where
  service : Service
  chain : Bytes := Host.defaultChain
  /-- The time of the clock, which stands still, in seconds. -/
  clock : Int := 0
  database : Database := {}
  breakdown : Option Host.Breakdown := none
  metrics : Metrics := {}

/-- A committed call. -/
structure Event where
  action : Action
  contract : Bytes
  sender : Address
  height : UInt64
  response : Response

namespace Host

variable {α : Type}

/-- The environment of a call at some height. -/
def env (h : Host) (height : UInt64) : Env := ⟨h.chain, height, h.clock⟩

/-- The height kept by the host: a word of eight bytes, or zero. -/
def readHeight (tx : Transaction) : UInt64 :=
  match tx.get hostBucket heightKey with
  | some b => if b.length = 8 then UInt64.ofNat (Bytes.ofBigEndian b) else 0
  | none => 0

/-- Counts an invocation in the metrics. -/
def count (h : Host) (e : Entry) : Option Status → Host
  | some s => { h with metrics := h.metrics.record e s }
  | none => h

/-- The error that a broken database reports. -/
def broken : Error := .ofKind .injected

/-! ## Reading -/

/-- Runs a computation in a read-only transaction of the host. -/
def view (h : Host) (body : Transaction → Outcome α) : Outcome α :=
  if h.breakdown = some .view then .error broken else h.database.view body

/-- The number of state-changing calls committed so far. -/
def height (h : Host) : Outcome UInt64 :=
  (h.view fun tx => .ok (readHeight tx)).mapError (.report .readHeight)

/-- The version record of a contract. -/
def contractInfo (h : Host) (name : Bytes) : Outcome Version :=
  h.view fun tx => ((Version.get.scoped name).run (Transaction.store stateBucket).toSource tx).1

/-- What a call leaves: its outcome, the host and what was logged. -/
structure Called (α : Type) where
  outcome : Outcome α
  host : Host
  logs : List Log.Entry := []

/-- Runs the query of a contract in a read-only transaction. -/
def query (h : Host) (name : Bytes) (msg : Payload) : Called Payload :=
  if h.breakdown = some .view then { outcome := .error broken, host := h }
  else match h.database.start false with
    | .error e => { outcome := .error e, host := h }
    | .ok tx =>
      let r := h.service.query (Transaction.store stateBucket).toSource name (h.env (readHeight tx)) msg tx
      { outcome := r.outcome, host := h.count .query r.counted, logs := r.logs }

/-! ## State-changing calls -/

/-- Makes sure that a bucket exists, unless that is what fails. -/
def openBucket (h : Host) (name : Bytes) (fault : Breakdown) (c : Context) (tx : Transaction) :
    Except Error Transaction :=
  if h.breakdown = some fault then .error (.report c broken)
  else match tx.createBucket name with
    | (.ok (), tx') => .ok tx'
    | (.error e, _) => .error (.report c e)

/-- The storage of the contracts as the host hands it to the service. -/
def storage (h : Host) : Store Transaction :=
  if h.breakdown = some .stateSet then
    { Transaction.store stateBucket with set := fun _ _ tx => (.error broken, tx) }
  else Transaction.store stateBucket

/-- Writes the new height. -/
def writeHeight (h : Host) (height : UInt64) (tx : Transaction) : Except Error Transaction :=
  if h.breakdown = some .hostSet then .error (.report .writeHeight broken)
  else match tx.set hostBucket heightKey (some (Bytes.bigEndian 8 height.toNat)) with
    | (.ok (), tx') => .ok tx'
    | (.error e, _) => .error (.report .writeHeight e)

/-- What the body of the transaction of a call leaves. -/
structure Worked where
  outcome : Outcome Event
  tx : Transaction
  logs : List Log.Entry := []
  counted : Option Status := none

/-- The name of the callback by which a call learns that it is committed. -/
def committedMark : Bytes := utf8 "committed"

/-- The body of the transaction of a call: the buckets, the invocation, and the new height. -/
def work (h : Host) (action : Action) (caller : Address) (name : Bytes) (msg : Payload)
    (tx : Transaction) : Worked :=
  match h.openBucket hostBucket .hostBucket .hostBucket tx with
  | .error e => { outcome := .error e, tx }
  | .ok tx₁ =>
    match h.openBucket stateBucket .stateBucket .stateBucket tx₁ with
    | .error e => { outcome := .error e, tx := tx₁ }
    | .ok tx₂ =>
      let height := readHeight tx₂ + 1
      let r := h.service.invoke h.storage action name (h.env height) caller msg tx₂
      match r.outcome with
      | .error e => { outcome := .error e, tx := r.state, logs := r.logs, counted := r.counted }
      | .abort a => { outcome := .abort a, tx := r.state, logs := r.logs, counted := r.counted }
      | .ok response =>
        match h.writeHeight height r.state with
        | .error e => { outcome := .error e, tx := r.state, logs := r.logs, counted := r.counted }
        | .ok tx₃ =>
          { outcome := .ok { action, contract := name, sender := caller, height, response }
            tx := tx₃.onCommit committedMark
            logs := r.logs
            counted := r.counted }

/-- A log entry of the host about a call. -/
def logEntry (level : Log.Level) (message name : Bytes) : Log.Entry :=
  { level, message, service := some (utf8 "host"), contract := some name }

/-- The log entry of a call that was rolled back. -/
def rolledBack (name : Bytes) (e : Error) : Log.Entry :=
  { logEntry .warn (utf8 "call rolled back") name with error := some e }

/-- The log entry of a call that was committed. -/
def committedEntry (e : Event) : Log.Entry :=
  { logEntry .info (utf8 "call committed") e.contract with
    height := some e.height, sender := some e.sender.bytes }

/-- Runs a state-changing call on behalf of a caller. The call succeeds when its callback has run
after the commit. -/
def invoke (h : Host) (action : Action) (caller : Address) (name : Bytes) (msg : Payload) :
    Called Event :=
  if caller.isEmpty then { outcome := .error (.fault .callerMissing), host := h }
  else if h.breakdown = some .update then
    { outcome := .error broken, host := h, logs := [rolledBack name broken] }
  else match h.database.start true with
    | .error e => { outcome := .error e, host := h, logs := [rolledBack name e] }
    | .ok tx =>
      let w := h.work action caller name msg tx
      let (outcome, callbacks, database) := h.database.finish w.outcome w.tx
      let h' := { h.count action.entry w.counted with database }
      match outcome with
      | .abort r => { outcome := .abort r, host := h', logs := w.logs }
      | .error e => { outcome := .error e, host := h', logs := w.logs ++ [rolledBack name e] }
      | .ok event =>
        if callbacks.contains committedMark && h.breakdown ≠ some .noCallbacks then
          { outcome := .ok event, host := h', logs := w.logs ++ [committedEntry event] }
        else { outcome := .error (.fault .notCommitted), host := h', logs := w.logs }

/-! ## Direct access to the database -/

/-- Writes a value in a bucket, in an update of its own. -/
def put (h : Host) (bucket key : Bytes) (value : Payload) : Outcome Unit × Host :=
  match h.database.start true with
  | .error e => (.error e, h)
  | .ok tx =>
    let (result, tx') := match tx.createBucket bucket with
      | (.ok (), tx₁) => tx₁.set bucket key value
      | (.error e, tx₁) => (.error e, tx₁)
    let (outcome, _, database) := h.database.finish (.ofExcept result) tx'
    (outcome, { h with database })

/-- Deletes a key of a bucket, in an update of its own. -/
def erase (h : Host) (bucket key : Bytes) : Outcome Unit × Host :=
  match h.database.start true with
  | .error e => (.error e, h)
  | .ok tx =>
    let (result, tx') := match tx.createBucket bucket with
      | (.ok (), tx₁) => tx₁.delete bucket key
      | (.error e, tx₁) => (.error e, tx₁)
    let (outcome, _, database) := h.database.finish (.ofExcept result) tx'
    (outcome, { h with database })

/-- The entries of a bucket, if it exists. -/
def dump (h : Host) (bucket : Bytes) : Outcome (Option (List (Bytes × Payload))) :=
  h.database.view fun tx => .ok ((tx.buckets.get? bucket).map fun b => b.entries)

end Host

end CounterLedger
