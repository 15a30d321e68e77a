/-
Observers and the list of those that watch. Any value can be an observer. One that is equal to itself
is added once; one whose type has no equality is added every time and never removed. Whether a type
has an equality is known before two values are compared, but not what they hold in places that take
a value of any type: there the comparison is cut off when it meets two values of one type that has
no equality.
-/
import CounterLedger.Bytes

namespace CounterLedger

/-- A value of any type, as far as its equality goes. Types are told apart by their names, and the
values of a type by their identifiers. -/
inductive Value where
  /-- A value of a type with an equality: a number, a text, a reference to an object. -/
  | plain (type id : Bytes)
  /-- The number of a type that is not equal to itself. -/
  | nan (type : Bytes)
  /-- A value of a type without an equality: a slice, a map, a function. -/
  | closed (type id : Bytes)
  /-- A place for a value of any type, with nothing in it. -/
  | vacant
  /-- A place for a value of any type, and the value in it. -/
  | held (v : Value)
  /-- A struct of the type, without fields. -/
  | struct (type : Bytes)
  /-- A struct with one more field, which is its last. -/
  | field (s v : Value)
deriving DecidableEq

/-- The type of a value. -/
inductive Value.Kind where
  | plain (type : Bytes)
  | closed (type : Bytes)
  /-- The type of the places for values of any type. -/
  | any
  | struct (type : Bytes)
  | field (s v : Kind)
deriving DecidableEq

/-- Whether the type has an equality. A place has one, whatever is in it. -/
def Value.Kind.comparable : Value.Kind → Bool
  | .plain _ => true
  | .closed _ => false
  | .any => true
  | .struct _ => true
  | .field s v => s.comparable && v.comparable

namespace Value

/-- The type of the value. -/
def kind : Value → Kind
  | .plain type _ => .plain type
  | .nan type => .plain type
  | .closed type _ => .closed type
  | .vacant => .any
  | .held _ => .any
  | .struct type => .struct type
  | .field s v => .field s.kind v.kind

/-- Compares two values of one type; none when the comparison is cut off. Fields are compared in
their order, up to the first that differ. -/
def equal? : Value → Value → Option Bool
  | .plain s a, .plain t b => some (s = t && a = b)
  | .vacant, .vacant => some true
  | .held a, .held b =>
    if a.kind ≠ b.kind then some false
    else if a.kind.comparable then a.equal? b
    else none
  | .struct s, .struct t => some (s = t)
  | .field s a, .field t b =>
    match s.equal? t with
    | some true => a.equal? b
    | differs => differs
  | _, _ => some false

end Value

/-- Something that can be notified of events. -/
inductive Observer where
  /-- No observer at all. -/
  | missing
  | value (v : Value)
deriving DecidableEq

namespace Observer

/-- A reference to an object; there is one object per name. -/
def handle (id : Bytes) : Observer := .value (.plain (utf8 "pointer") id)

/-- Whether two observers are the same one; none when the comparison is cut off. Values are compared
when they are of one type that has an equality. -/
def same? : Observer → Observer → Option Bool
  | .missing, .missing => some true
  | .value a, .value b => if a.kind = b.kind ∧ a.kind.comparable then a.equal? b else some false
  | _, _ => some false

end Observer

/-- The observers that watch, in the order in which they were added. -/
abbrev Watcher := List Observer

namespace Watcher

/-- Where an observer stands in the list, if it does; none when a comparison is cut off. -/
def position? (o : Observer) : Watcher → Option (Option Nat)
  | [] => some none
  | x :: rest =>
    match x.same? o with
    | none => none
    | some true => some (some 0)
    | some false => (position? o rest).map fun p => p.map (· + 1)

/-- Adds an observer at the end unless it is there already; none when a comparison is cut off. -/
def add (w : Watcher) (o : Observer) : Option Watcher :=
  match position? o w with
  | none => none
  | some (some _) => some w
  | some none => some (w ++ [o])

/-- Takes an observer out of the list; none when a comparison is cut off. -/
def remove (w : Watcher) (o : Observer) : Option Watcher :=
  match position? o w with
  | none => none
  | some (some i) => some (w.eraseIdx i)
  | some none => some w

end Watcher

end CounterLedger
