/-
Stores. A store is a set of operations on a state of any type; each operation returns its result
and the next state, so that a store may begin to fail at any point. An operation that fails is
expected to leave the contents as they were.
-/
import CounterLedger.Error
import CounterLedger.Table

namespace CounterLedger

/-- A store that can be read. A missing key reads as none. -/
structure Source (σ : Type) where
  get : Bytes → σ → Except Error Payload × σ

/-- A store that can be read and written. -/
structure Store (σ : Type) extends Source σ where
  set : Bytes → Payload → σ → Except Error Unit × σ
  delete : Bytes → σ → Except Error Unit × σ

namespace Source

/-- The store without any key. -/
def empty {σ : Type} : Source σ := ⟨fun _ s => (.ok none, s)⟩

end Source

/-! ## Plain stores -/

/-- Which operations of a plain store fail. -/
structure Faults where
  read : Bool := false
  write : Bool := false
  delete : Bool := false
  /-- How many more writes succeed, when there is a limit. -/
  writesLeft : Option Nat := none
deriving DecidableEq

/-- The faults of a store all of whose operations fail. -/
def Faults.all : Faults := { read := true, write := true, delete := true }

/-- A table of values, absent values included, with operations that can be made to fail. -/
structure PlainStore where
  values : Table Payload := Table.empty
  faults : Faults := {}

namespace PlainStore

/-- The fault that failing operations report. -/
def injected {α : Type} : Except Error α := .error (.ofKind .injected)

/-- The value of a key; an absent value reads like a missing key. -/
def get (k : Bytes) (s : PlainStore) : Except Error Payload × PlainStore :=
  if s.faults.read then (injected, s) else (.ok ((s.values.get? k).getD none), s)

/-- Writes a value, as long as writes do not fail. -/
def set (k : Bytes) (v : Payload) (s : PlainStore) : Except Error Unit × PlainStore :=
  if s.faults.write then (injected, s)
  else match s.faults.writesLeft with
    | none => (.ok (), { s with values := s.values.insert k v })
    | some 0 => (injected, s)
    | some (n + 1) =>
      (.ok (), { values := s.values.insert k v, faults := { s.faults with writesLeft := some n } })

/-- Takes a key out, as long as deletions do not fail. -/
def delete (k : Bytes) (s : PlainStore) : Except Error Unit × PlainStore :=
  if s.faults.delete then (injected, s) else (.ok (), { s with values := s.values.erase k })

/-- The operations of a plain store. -/
def store : Store PlainStore := { get := get, set := set, delete := delete }

end PlainStore

end CounterLedger
