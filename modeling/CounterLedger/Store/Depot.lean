/-
A depot of stores that build on one another. Several overlays and namespaces may stand on the same
store and see each other's writes through it, so the stores live side by side and refer to their
parents by position; a parent always stands before its children. Where a name leads to no store, an
overlay or a view has nothing below it.
-/
import CounterLedger.Store.Namespace
import CounterLedger.Store.Overlay

namespace CounterLedger

namespace Depot

/-- A store of the depot. -/
inductive Node where
  /-- Changes in memory, on top of another store or of nothing. -/
  | snapshot (changes : Table Change) (parent : Option Nat)
  | plain (s : PlainStore)
  /-- A namespace of another store. -/
  | scoped (space : Bytes) (parent : Nat)
  /-- A namespace of another store, or of none, that can only be read. -/
  | view (space : Bytes) (parent : Option Nat)

end Depot

/-- Stores by position, and the positions by name. -/
structure Depot where
  nodes : List Depot.Node := []
  names : Table Nat := Table.empty

namespace Depot

/-- Adds a store under a name; an older store of that name is no longer found by it. -/
def add (d : Depot) (name : Bytes) (n : Node) : Depot :=
  { nodes := d.nodes ++ [n], names := d.names.insert name d.nodes.length }

/-- Replaces the store at a position. -/
def put (d : Depot) (i : Nat) (n : Node) : Depot := { d with nodes := d.nodes.set i n }

/-- Whether the store at a position can be written. -/
def isWritable (d : Depot) (i : Nat) : Bool :=
  match d.nodes[i]? with
  | some (.view _ _) => false
  | _ => true

/-! ## Operations -/

/-- The value of a key in the store at a position. A snapshot of nothing has no keys, while a view of
nothing cannot be read. -/
def get (d : Depot) (i : Nat) (k : Bytes) : Outcome Payload :=
  match d.nodes[i]? with
  | some (.plain s) => .ofExcept (s.get k).1
  | some (.snapshot changes parent) =>
    match changes.get? k, parent with
    | some c, _ => .ok c.read
    | none, some p => if p < i then (d.get p k).mapError (.within .parent) else .ok none
    | none, none => .ok none
  | some (.scoped space p) => if p < i then d.get p (Namespace.key space k) else .ok none
  | some (.view space (some p)) => if p < i then d.get p (Namespace.key space k) else .ok none
  | some (.view _ none) => .abort none
  | none => .ok none
termination_by i

/-- Writes a value to the store at a position. -/
def set (d : Depot) (i : Nat) (k : Bytes) (v : Payload) : Except Error Unit × Depot :=
  match d.nodes[i]? with
  | some (.plain s) =>
    let (r, s') := s.set k v
    (r, d.put i (.plain s'))
  | some (.snapshot changes parent) =>
    (.ok (), d.put i (.snapshot (changes.insert k (.value v)) parent))
  | some (.scoped space p) => if p < i then d.set p (Namespace.key space k) v else (.ok (), d)
  | _ => (.ok (), d)
termination_by i

/-- Deletes a key in the store at a position. -/
def delete (d : Depot) (i : Nat) (k : Bytes) : Except Error Unit × Depot :=
  match d.nodes[i]? with
  | some (.plain s) =>
    let (r, s') := s.delete k
    (r, d.put i (.plain s'))
  | some (.snapshot changes parent) =>
    (.ok (), d.put i (.snapshot (changes.insert k .deleted) parent))
  | some (.scoped space p) => if p < i then d.delete p (Namespace.key space k) else (.ok (), d)
  | _ => (.ok (), d)
termination_by i

/-- The store at a position. What cannot be read has no keys. -/
def store (i : Nat) : Store Depot where
  get k d :=
    (match d.get i k with
      | .ok v => .ok v
      | .error e => .error e
      | .abort _ => .ok none, d)
  set k v d := d.set i k v
  delete k d := d.delete i k

/-- The number of keys of a store: written or deleted ones of a snapshot, present ones of a plain
store. A namespace does not know its keys. -/
def size? (d : Depot) (i : Nat) : Option Nat :=
  match d.nodes[i]? with
  | some (.plain s) => some s.values.size
  | some (.snapshot changes _) => some changes.size
  | _ => none

/-- The changes that a snapshot keeps; other stores keep none. -/
def changes? (d : Depot) (i : Nat) : Option (List (Bytes × Change)) :=
  match d.nodes[i]? with
  | some (.snapshot changes _) => some changes.entries
  | _ => none

/-- Changes which operations of a plain store fail; other stores cannot be made to fail. -/
def setFaults? (d : Depot) (i : Nat) (f : Faults) : Option Depot :=
  match d.nodes[i]? with
  | some (.plain s) => some (d.put i (.plain { s with faults := f }))
  | _ => none

/-! ## Lent values -/

/-- Flips bits of the first byte of a value that its store did not copy. Snapshots copy the values
they are given; a plain store keeps the very bytes of its caller. -/
def disturb (d : Depot) (i : Nat) (k : Bytes) (mask : UInt8) : Depot :=
  match d.nodes[i]? with
  | some (.plain s) =>
    match s.values.get? k with
    | some (some v) => d.put i (.plain { s with values := s.values.insert k (some (v.flipFirst mask)) })
    | _ => d
  | some (.scoped space p) => if p < i then d.disturb p (Namespace.key space k) mask else d
  | _ => d
termination_by i

/-- Writes a value, goes on to flip the first byte of the value and then of the key from outside,
reads it, flips the first byte of what was read, and reads it again. It is cut off where there is no
first byte. -/
def lend (d : Depot) (i : Nat) (k : Bytes) (v : Payload) : Outcome (Payload × Payload) × Depot :=
  match d.set i k v with
  | (.error e, d₁) => (.error e, d₁)
  | (.ok (), d₁) =>
    if v.getD [] = [] then (.abort none, d₁)
    else
      let d₂ := d₁.disturb i k 0xff
      if k = [] then (.abort none, d₂)
      else match d₂.get i k with
        | .error e => (.error e, d₂)
        | .abort r => (.abort r, d₂)
        | .ok before =>
          let d₃ := d₂.disturb i k 0x0f
          ((d₃.get i k).map fun after => (before, after), d₃)

/-! ## Sessions -/

/-- One step of a session with named stores. -/
inductive Step where
  | snapshot (name : Bytes)
  | plain (name : Bytes) (faults : Faults)
  | overlay (name parent : Bytes)
  | scoped (name space parent : Bytes)
  | view (name space parent : Bytes)
  | faults (name : Bytes) (faults : Faults)
  | get (name key : Bytes)
  | set (name key : Bytes) (value : Payload)
  | delete (name key : Bytes)
  | lend (name key : Bytes) (value : Payload)
  | size (name : Bytes)
  | commit (name target : Bytes)
  /-- Runs steps with a child of the store, whose changes are applied unless the block fails. -/
  | stage (name child : Bytes) (steps : List Step) (fails : Bool)
deriving Inhabited

/-- What a step answers. -/
inductive Reply where
  | done
  | value (v : Payload)
  | values (before after : Payload)
  | size (n : Nat)

/-- The answer of a step, with the answers of the steps inside it. -/
inductive Answer where
  | mk (result : Outcome Reply) (inner : Option (List Answer))

/-- The answer of a step without steps inside. -/
def Answer.single (result : Outcome Reply) : Answer := .mk result none

/-- Does something with the store of a name; there has to be one. -/
def withStore (d : Depot) (name : Bytes) (act : Nat → Outcome Reply × Depot) : Answer × Depot :=
  match d.names.get? name with
  | some i =>
    let (r, d') := act i
    (.single r, d')
  | none => (.single (.abort none), d)

/-- Does something that writes to the store of a name; there has to be one that can be written. -/
def withWritable (d : Depot) (name : Bytes) (act : Nat → Outcome Reply × Depot) : Answer × Depot :=
  d.withStore name fun i => if d.isWritable i then act i else (.abort none, d)

/-- The answer to something that not every store can do. -/
def possibly {α : Type} (d : Depot) (result : Option α) (act : α → Outcome Reply × Depot) :
    Outcome Reply × Depot :=
  match result with
  | some a => act a
  | none => (.abort none, d)

/-- The answer to an operation without a result. -/
def plainly : Except Error Unit × Depot → Outcome Reply × Depot
  | (.ok (), d) => (.ok .done, d)
  | (.error e, d) => (.error e, d)

/-- How a staged block ends: with its own failure, or with its changes applied. -/
def settle (d : Depot) (i child : Nat) (fails : Bool) : Outcome Reply × Depot :=
  if fails then (.error (.fault (.custom (utf8 "oops"))), d)
  else match (store i).apply ((d.changes? child).getD []) d with
    | (.ok (), d') => (.ok .done, d')
    | (.error e, d') => (.error (.within .commit e), d')

mutual

/-- Takes one step. -/
def step (d : Depot) : Step → Answer × Depot
  | .snapshot name => (.single (.ok .done), d.add name (.snapshot Table.empty none))
  | .plain name faults => (.single (.ok .done), d.add name (.plain { faults }))
  | .overlay name parent =>
    (.single (.ok .done), d.add name (.snapshot Table.empty (d.names.get? parent)))
  | .scoped name space parent =>
    d.withWritable parent fun p => (.ok .done, d.add name (.scoped space p))
  | .view name space parent =>
    (.single (.ok .done), d.add name (.view space (d.names.get? parent)))
  | .faults name f =>
    d.withStore name fun i => d.possibly (d.setFaults? i f) fun d' => (.ok .done, d')
  | .get name key => d.withStore name fun i => ((d.get i key).map .value, d)
  | .set name key value => d.withWritable name fun i => plainly (d.set i key value)
  | .delete name key => d.withWritable name fun i => plainly (d.delete i key)
  | .lend name key value =>
    d.withWritable name fun i =>
      let (r, d') := d.lend i key value
      (r.map fun (before, after) => .values before after, d')
  | .size name => d.withStore name fun i => d.possibly (d.size? i) fun n => (.ok (.size n), d)
  | .commit name target =>
    d.withStore name fun i =>
      d.possibly (d.changes? i) fun cs =>
        match d.names.get? target with
        | some j => if d.isWritable j then plainly ((store j).apply cs d) else (.abort none, d)
        | none => (.abort none, d)
  | .stage name child steps fails =>
    match d.names.get? name with
    | none => (.single (.abort none), d)
    | some i =>
      if d.isWritable i then
        let c := d.nodes.length
        let (inner, d₁) := run (d.add child (.snapshot Table.empty (some i))) steps
        let (r, d₂) := settle d₁ i c fails
        (.mk r (some inner), d₂)
      else (.single (.abort none), d)

/-- Takes steps one after the other. -/
def run (d : Depot) : List Step → List Answer × Depot
  | [] => ([], d)
  | s :: rest =>
    let (a, d₁) := step d s
    let (as, d₂) := run d₁ rest
    (a :: as, d₂)

end

end Depot

end CounterLedger
