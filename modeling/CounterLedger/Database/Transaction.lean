/-
Databases and transactions. A transaction works on a copy of the buckets, which replaces them when
an update succeeds and is dropped otherwise. Callbacks registered in an update run after its
commit, and never if it fails.
-/
import CounterLedger.Database.Bucket
import CounterLedger.Store.Basic

namespace CounterLedger

/-- A transaction under way. -/
structure Transaction where
  writable : Bool
  buckets : Buckets
  /-- The names of the callbacks to run after the commit, in order. -/
  callbacks : List Bytes := []

namespace Transaction

/-- Whether there is a bucket of that name. -/
def hasBucket (tx : Transaction) (name : Bytes) : Bool := tx.buckets.contains name

/-- The bucket of a name; a missing one is like an empty one. -/
def bucket (tx : Transaction) (name : Bytes) : Bucket := (tx.buckets.get? name).getD Table.empty

/-- Makes sure that there is a bucket of that name. -/
def createBucket (tx : Transaction) (name : Bytes) : Except Error Unit × Transaction :=
  if !tx.writable then (.error (.report .createBucket (.fault .notWritable)), tx)
  else if name = [] then (.error (.report .createBucket (.fault .bucketNameRequired)), tx)
  else if tx.hasBucket name then (.ok (), tx)
  else (.ok (), { tx with buckets := tx.buckets.insert name Table.empty })

/-- Writes a value in a bucket. -/
def set (name k : Bytes) (v : Payload) (tx : Transaction) : Except Error Unit × Transaction :=
  if !tx.writable then (.error (.fault .notWritable), tx)
  else match (tx.bucket name).write k v with
    | .ok b => (.ok (), { tx with buckets := tx.buckets.insert name b })
    | .error e => (.error e, tx)

/-- Deletes a key of a bucket; a missing key is no error. -/
def delete (name k : Bytes) (tx : Transaction) : Except Error Unit × Transaction :=
  if !tx.writable then (.error (.fault .notWritable), tx)
  else (.ok (), { tx with buckets := tx.buckets.insert name ((tx.bucket name).erase k) })

/-- The value of a key of a bucket. -/
def get (name k : Bytes) (tx : Transaction) : Payload := (tx.bucket name).read k

/-- A bucket as a store. -/
def store (name : Bytes) : Store Transaction where
  get k tx := (.ok (tx.get name k), tx)
  set k v tx := tx.set name k v
  delete k tx := tx.delete name k

/-- Registers a callback. -/
def onCommit (tx : Transaction) (callback : Bytes) : Transaction :=
  { tx with callbacks := tx.callbacks ++ [callback] }

end Transaction

/-- A database. -/
structure Database where
  buckets : Buckets := Table.empty
  isOpen : Bool := true

namespace Database

variable {α : Type}

/-- Begins a transaction, unless the database is closed. -/
def start (db : Database) (writable : Bool) : Except Error Transaction :=
  if db.isOpen then .ok { writable, buckets := db.buckets } else .error (.fault .databaseClosed)

/-- Ends an update: the outcome, the callbacks that were run, and the database. -/
def finish (db : Database) (outcome : Outcome α) (tx : Transaction) :
    Outcome α × List Bytes × Database :=
  match outcome with
  | .ok a => (.ok a, tx.callbacks, { db with buckets := tx.buckets.mapValues Bucket.committed })
  | .error e => (.error e, [], db)
  | .abort r => (.abort r, [], db)

/-- Runs a computation in a read-only transaction. -/
def view (db : Database) (body : Transaction → Outcome α) : Outcome α :=
  match db.start false with
  | .error e => .error e
  | .ok tx => body tx

/-- Closes the database; it does no harm to close it again. -/
def close (db : Database) : Database := { db with isOpen := false }

end Database

end CounterLedger
