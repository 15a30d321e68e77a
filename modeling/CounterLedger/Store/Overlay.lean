/-
Overlays. An overlay keeps the changes made on top of a store without touching it; a deletion is
kept as a tombstone that hides the key below. Committing replays the changes into a store. A
computation is staged by running it on an overlay that is committed only if it succeeds.
-/
import CounterLedger.Store.Basic

namespace CounterLedger

/-- A change to one key that has not been applied yet. -/
inductive Change where
  | value (v : Payload)
  | deleted
deriving DecidableEq

/-- What a changed key reads as. -/
def Change.read : Change → Payload
  | .value v => v
  | .deleted => none

/-- Changes on top of a store in some state. -/
structure Overlay (σ : Type) where
  changes : Table Change := Table.empty
  base : σ

/-- Applies changes one after the other, in the order given, up to the first that fails. -/
def Store.apply {σ : Type} (s : Store σ) : List (Bytes × Change) → σ → Except Error Unit × σ
  | [], st => (.ok (), st)
  | (k, c) :: rest, st =>
    let (result, st') := match c with
      | .value v => s.set k v st
      | .deleted => s.delete k st
    match result with
    | .ok () => s.apply rest st'
    | .error e => (.error (.within (.applyKey k) e), st')

namespace Overlay

variable {σ α : Type}

/-- The value of a key: the change made to it, or else what the store below has. -/
def get (below : Source σ) (k : Bytes) (o : Overlay σ) : Except Error Payload × Overlay σ :=
  match o.changes.get? k with
  | some c => (.ok c.read, o)
  | none =>
    match below.get k o.base with
    | (.ok v, base) => (.ok v, { o with base })
    | (.error e, base) => (.error (.within .parent e), { o with base })

/-- Records a value for a key. -/
def set (k : Bytes) (v : Payload) (o : Overlay σ) : Except Error Unit × Overlay σ :=
  (.ok (), { o with changes := o.changes.insert k (.value v) })

/-- Records that a key is deleted. -/
def delete (k : Bytes) (o : Overlay σ) : Except Error Unit × Overlay σ :=
  (.ok (), { o with changes := o.changes.insert k .deleted })

/-- The operations of an overlay on a store that is only read. -/
def store (below : Source σ) : Store (Overlay σ) where
  get := get below
  set := set
  delete := delete

/-- The number of keys written or deleted. -/
def size (o : Overlay σ) : Nat := o.changes.size

end Overlay

/-- A store of its own in memory: changes on top of nothing. -/
abbrev Snapshot := Overlay Unit

namespace Snapshot

/-- The snapshot without any change. -/
def new : Snapshot := { base := () }

/-- The operations of a snapshot. -/
def store : Store Snapshot := Overlay.store Source.empty

end Snapshot

/-- Ends a staged computation: its changes are applied when it succeeded, in the order in which they
are visited. When it failed or was aborted, or when its changes cannot be applied, that is the
outcome. -/
def Store.settleIn {σ α : Type} (s : Store σ) (visit : Table Change → List (Bytes × Change)) :
    Outcome α × Overlay σ → Outcome α × σ
  | (.ok a, o) =>
    match s.apply (visit o.changes) o.base with
    | (.ok (), st) => (.ok a, st)
    | (.error e, st) => (.error (.within .commit e), st)
  | (.error e, o) => (.error e, o.base)
  | (.abort r, o) => (.abort r, o.base)

/-- Ends a staged computation with its changes in the ascending order of their keys. -/
def Store.settle {σ α : Type} (s : Store σ) : Outcome α × Overlay σ → Outcome α × σ := s.settleIn Table.entries

/-- Runs a computation on an overlay of the store, and applies its changes only if it succeeds. -/
def Store.stage {σ α : Type} (s : Store σ) (body : Overlay σ → Outcome α × Overlay σ) (st : σ) :
    Outcome α × σ :=
  s.settle (body { base := st })

end CounterLedger
