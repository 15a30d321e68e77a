/-
Buckets: values by key, walked in ascending byte order. A walk stops at the first entry on which
the visitor fails.
-/
import CounterLedger.Error
import CounterLedger.Table

namespace CounterLedger

/-- The values of a bucket. A value may be absent as long as the transaction that wrote it lasts. -/
abbrev Bucket := Table Payload

namespace Bucket

variable {τ : Type}

/-- The value of a key; a missing key reads as none. -/
def read (b : Bucket) (k : Bytes) : Payload := (b.get? k).getD none

/-- The longest key that can be written. -/
def maxKeyLength : Nat := 32768

/-- Writes a value under a key that is not empty and not too long. -/
def write (b : Bucket) (k : Bytes) (v : Payload) : Except Error Bucket :=
  if k = [] then .error (.fault .keyRequired)
  else if maxKeyLength < k.length then .error (.fault .keyTooLarge)
  else .ok (b.insert k v)

/-- The bucket as later transactions see it: an absent value has become an empty one. -/
def committed (b : Bucket) : Bucket := b.mapValues fun v => some (v.getD [])

/-- Something done with each entry of a walk, on a state of its own. -/
abbrev Visitor (τ : Type) := Bytes → Payload → τ → Except Error Unit × τ

/-- Shows the entries to the visitor in order, up to the first one on which it fails. -/
def visit (f : Visitor τ) : List (Bytes × Payload) → τ → Except Error Unit × τ
  | [], t => (.ok (), t)
  | e :: rest, t =>
    match f e.1 e.2 t with
    | (.ok (), t') => visit f rest t'
    | (.error err, t') => (.error err, t')

/-- Walks the whole bucket. -/
def forEach (b : Bucket) (f : Visitor τ) (t : τ) : Except Error Unit × τ := visit f b.entries t

/-- The entries from the first key that is not below `start`, for as long as they begin with it. -/
def startingWith (b : Bucket) (start : Bytes) : List (Bytes × Payload) :=
  (b.entries.dropWhile fun e => e.1 < start).takeWhile fun e => start.isPrefixOf e.1

/-- Walks the entries whose key begins with the given bytes. -/
def scan (b : Bucket) (start : Bytes) (f : Visitor τ) (t : τ) : Except Error Unit × τ :=
  match visit f (b.startingWith start) t with
  | (.ok (), t') => (.ok (), t')
  | (.error err, t') => (.error (.report .callback err), t')

end Bucket

/-- Buckets by name. -/
abbrev Buckets := Table Bucket

end CounterLedger
