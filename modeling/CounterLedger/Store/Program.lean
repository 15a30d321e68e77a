/-
Programs on a store. The code of a contract is a tree of storage operations: it is handed the
result of each operation, failures included, and goes on as it likes. Running the tree on a store
needs nothing but the store's operations, so what holds of every tree holds of every contract.
-/
import CounterLedger.Log
import CounterLedger.Store.Basic

namespace CounterLedger

/-- A computation that reads a store. -/
inductive Reading (α : Type) where
  | done (outcome : Outcome α)
  | get (key : Bytes) (next : Except Error Payload → Reading α)

/-- A computation that reads and writes a store, and writes to the log. -/
inductive Program (α : Type) where
  | done (outcome : Outcome α)
  | get (key : Bytes) (next : Except Error Payload → Program α)
  | set (key : Bytes) (value : Payload) (next : Except Error Unit → Program α)
  | delete (key : Bytes) (next : Except Error Unit → Program α)
  | log (entry : Log.Entry) (next : Program α)

namespace Reading

variable {α β σ : Type}

/-- The second computation after the first, if that one has a result. -/
def bind : Reading α → (α → Reading β) → Reading β
  | .done (.ok a), f => f a
  | .done (.error e), _ => .done (.error e)
  | .done (.abort r), _ => .done (.abort r)
  | .get k next, f => .get k fun v => (next v).bind f

instance : Monad Reading where
  pure a := .done (.ok a)
  bind := bind

/-- Ends with an error. -/
def fail (e : Error) : Reading α := .done (.error e)

/-- The value of a key; a failure of the store is the outcome. -/
def read (k : Bytes) : Reading Payload := .get k fun v => .done (.ofExcept v)

/-- Puts a context in front of the error. -/
def within (c : Context) : Reading α → Reading α
  | .done o => .done (o.mapError (.within c))
  | .get k next => .get k fun v => (next v).within c

/-- Runs the computation on a store. -/
def run (s : Source σ) : Reading α → σ → Outcome α × σ
  | .done o, st => (o, st)
  | .get k next, st =>
    match s.get k st with
    | (v, st') => (next v).run s st'

/-- The same computation as part of one that may also write. -/
def toProgram : Reading α → Program α
  | .done o => .done o
  | .get k next => .get k fun v => (next v).toProgram

end Reading

namespace Program

variable {α β σ : Type}

/-- The second computation after the first, if that one has a result. -/
def bind : Program α → (α → Program β) → Program β
  | .done (.ok a), f => f a
  | .done (.error e), _ => .done (.error e)
  | .done (.abort r), _ => .done (.abort r)
  | .get k next, f => .get k fun v => (next v).bind f
  | .set k v next, f => .set k v fun r => (next r).bind f
  | .delete k next, f => .delete k fun r => (next r).bind f
  | .log e next, f => .log e (next.bind f)

instance : Monad Program where
  pure a := .done (.ok a)
  bind := bind

instance : MonadLift Reading Program := ⟨Reading.toProgram⟩

/-- Ends with an error. -/
def fail (e : Error) : Program α := .done (.error e)

/-- Ends abruptly. -/
def abort (reason : Option Bytes) : Program α := .done (.abort reason)

/-- A result or an error that is already known. -/
def ofExcept (r : Except Error α) : Program α := .done (.ofExcept r)

/-- Writes a value; a failure of the store is the outcome. -/
def write (k : Bytes) (v : Payload) : Program Unit := .set k v fun r => .done (.ofExcept r)

/-- Deletes a key; a failure of the store is the outcome. -/
def erase (k : Bytes) : Program Unit := .delete k fun r => .done (.ofExcept r)

/-- Writes an entry to the log. -/
def note (e : Log.Entry) : Program Unit := .log e (.done (.ok ()))

/-- Puts a context in front of the error. -/
def within (c : Context) : Program α → Program α
  | .done o => .done (o.mapError (.within c))
  | .get k next => .get k fun v => (next v).within c
  | .set k v next => .set k v fun r => (next r).within c
  | .delete k next => .delete k fun r => (next r).within c
  | .log e next => .log e (next.within c)

/-- How a run on a store ends: the outcome, the state of the store and the entries logged. -/
structure Ran (α σ : Type) where
  outcome : Outcome α
  state : σ
  logs : List Log.Entry := []

/-- Runs the program on a store. -/
def run (s : Store σ) : Program α → σ → Ran α σ
  | .done o, st => { outcome := o, state := st }
  | .get k next, st =>
    match s.get k st with
    | (v, st') => (next v).run s st'
  | .set k v next, st =>
    match s.set k v st with
    | (r, st') => (next r).run s st'
  | .delete k next, st =>
    match s.delete k st with
    | (r, st') => (next r).run s st'
  | .log e next, st =>
    let ran := next.run s st
    { ran with logs := e :: ran.logs }

end Program

end CounterLedger
