/-
Sessions with a database: it is opened by path, transactions are lists of moves on a current
bucket, and it is closed. A move that fails does not end its transaction; a transaction ends early
when a move says so, or when it is cut off.
-/
import CounterLedger.Directory

namespace CounterLedger.Database

/-- A move inside a transaction. -/
inductive Move where
  /-- Makes a bucket the current one; there is none if it does not exist. -/
  | bucket (name : Bytes)
  /-- Creates a bucket if needed and makes it the current one. -/
  | create (name : Bytes)
  | onCommit (callback : Bytes)
  | get (key : Bytes)
  | set (key : Bytes) (value : Payload)
  | delete (key : Bytes)
  /-- Walks the bucket with a visitor that fails once it has seen `stopAt` entries. -/
  | forEach (stopAt : Option Nat)
  | scan (start : Bytes) (stopAt : Option Nat)
  /-- Reads the bucket as a store, which is empty when there is no bucket. -/
  | storeGet (key : Bytes)
  /-- Ends the transaction with an error. -/
  | fail

/-- What a move answers. -/
inductive Reply where
  | done
  | found (b : Bool)
  | value (v : Payload)

/-- The answer of a move, with the entries it visited. -/
structure Answer where
  result : Outcome Reply
  visited : Option (List (Bytes × Payload)) := none

/-- A transaction with its current bucket. -/
structure Desk where
  tx : Transaction
  current : Option Bytes := none

/-- The visitor that collects entries and fails once it has seen `stopAt` of them. -/
def collector (stopAt : Option Nat) : Bucket.Visitor (List (Bytes × Payload)) :=
  fun k v seen =>
    if stopAt = some seen.length then (.error (.fault (.custom (utf8 "stop"))), seen)
    else (.ok (), seen ++ [(k, v)])

/-- The answer to an operation without a result. -/
def Desk.plainly (d : Desk) : Except Error Unit × Transaction → Answer × Desk
  | (r, tx) => ({ result := (Outcome.ofExcept r).map fun _ => .done }, { d with tx })

/-- The answer of a walk. -/
def walked : Except Error Unit × List (Bytes × Payload) → Answer
  | (r, seen) => { result := (Outcome.ofExcept r).map fun _ => .done, visited := some seen }

/-- Makes one move. Without a current bucket most moves are cut off. -/
def Desk.step (d : Desk) : Move → Answer × Desk
  | .bucket name =>
    let found := d.tx.hasBucket name
    ({ result := .ok (.found found) }, { d with current := if found then some name else none })
  | .create name =>
    if !d.tx.writable then ({ result := .abort none }, d)
    else match d.tx.createBucket name with
      | (.ok (), tx) => ({ result := .ok .done }, { tx, current := some name })
      | (.error e, tx) => ({ result := .error e }, { d with tx })
  | .onCommit callback =>
    if !d.tx.writable then ({ result := .abort none }, d)
    else ({ result := .ok .done }, { d with tx := d.tx.onCommit callback })
  | .storeGet key =>
    ({ result := .ok (.value (d.current.bind fun name => d.tx.get name key)) }, d)
  | .fail => ({ result := .ok .done }, d)
  | .get key =>
    match d.current with
    | none => ({ result := .abort none }, d)
    | some name => ({ result := .ok (.value (d.tx.get name key)) }, d)
  | .set key value =>
    match d.current with
    | none => ({ result := .abort none }, d)
    | some name => d.plainly (d.tx.set name key value)
  | .delete key =>
    match d.current with
    | none => ({ result := .abort none }, d)
    | some name => d.plainly (d.tx.delete name key)
  | .forEach stopAt =>
    match d.current with
    | none => ({ result := .abort none }, d)
    | some name => (walked ((d.tx.bucket name).forEach (collector stopAt) []), d)
  | .scan start stopAt =>
    match d.current with
    | none => ({ result := .abort none }, d)
    | some name => (walked ((d.tx.bucket name).scan start (collector stopAt) []), d)

/-- Makes moves until the transaction ends: at a move that fails it, marked or not, after another
move that is marked to be cut off, or when there are no more. -/
def Desk.run (d : Desk) : List (Move × Bool) → List Answer × Outcome Unit × Desk
  | [] => ([], .ok (), d)
  | (m, cutOff) :: rest =>
    let (a, d₁) := d.step m
    match m with
    | .fail => ([a], .error (.fault (.custom (utf8 "oops"))), d₁)
    | _ =>
      if cutOff then ([a], .abort (some (utf8 "callback panic")), d₁)
      else
        let (as, o, d₂) := d₁.run rest
        (a :: as, o, d₂)

/-! ## Sessions -/

/-- A step of a session. -/
inductive Step where
  | open (path : Bytes)
  | close
  | view (moves : List (Move × Bool))
  | update (moves : List (Move × Bool))

/-- The answer of a step: its outcome, the answers of its moves, and the callbacks that were run. -/
structure Reached where
  outcome : Outcome Unit
  moves : List Answer := []
  callbacks : List Bytes := []

/-- The directory, and the database that was opened last with its file. -/
structure Session where
  directory : Directory := Table.empty
  opened : Option (Bytes × Database) := none

/-- Takes one step. -/
def Session.step (s : Session) : Step → Reached × Session
  | .open path =>
    match s.directory.openDatabase path with
    | .ok (name, db, directory) => ({ outcome := .ok () }, { directory, opened := some (name, db) })
    | .error e => ({ outcome := .error e }, s)
  | .close =>
    match s.opened with
    | none => ({ outcome := .abort none }, s)
    | some (name, db) => ({ outcome := .ok () }, { s with opened := some (name, db.close) })
  | .view moves =>
    match s.opened with
    | none => ({ outcome := .abort none }, s)
    | some (_, db) =>
      match db.start false with
      | .error e => ({ outcome := .error e }, s)
      | .ok tx =>
        let (answers, outcome, _) := Desk.run { tx } moves
        ({ outcome, moves := answers }, s)
  | .update moves =>
    match s.opened with
    | none => ({ outcome := .abort none }, s)
    | some (name, db) =>
      match db.start true with
      | .error e => ({ outcome := .error e }, s)
      | .ok tx =>
        let (answers, ending, d) := Desk.run { tx } moves
        let (outcome, callbacks, db') := db.finish ending d.tx
        ({ outcome, moves := answers, callbacks },
          { directory := s.directory.store name db', opened := some (name, db') })

end CounterLedger.Database
