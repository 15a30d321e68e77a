/-
Images of databases: the bytes that keep the buckets of a database in a file. Every name, key and
value is preceded by its length, so nothing in them has to be escaped.
-/
import CounterLedger.Database.Transaction

namespace CounterLedger.Image

/-- What every image starts with. -/
def signature : Bytes := utf8 "counter ledger 1\n"

/-- Bytes after their length, which takes eight bytes. -/
def field (b : Bytes) : Bytes := Bytes.bigEndian 8 b.length ++ b

/-- Pairs of fields, one after the other. -/
def pairs (entries : List (Bytes × Bytes)) : Bytes := entries.flatMap fun (k, v) => field k ++ field v

/-- The image of a bucket. -/
def ofBucket (b : Bucket) : Bytes := pairs (b.entries.map fun (k, v) => (k, v.getD []))

/-- The image of all buckets. -/
def encode (bs : Buckets) : Bytes := signature ++ pairs (bs.entries.map fun (name, b) => (name, ofBucket b))

/-- Takes a field from the front. -/
def takeField (s : Bytes) : Option (Bytes × Bytes) :=
  let n := Bytes.ofBigEndian (s.take 8)
  let rest := s.drop 8
  if 8 ≤ s.length && n ≤ rest.length then some (rest.take n, rest.drop n) else none

/-- Reads at most `n` pairs of fields, up to the end of the bytes. -/
def readPairs : Nat → Bytes → Option (List (Bytes × Bytes))
  | _, [] => some []
  | 0, _ => none
  | n + 1, s => do
    let (k, s₁) ← takeField s
    let (v, s₂) ← takeField s₁
    let rest ← readPairs n s₂
    some ((k, v) :: rest)

/-- Reads the image of a bucket. -/
def toBucket? (s : Bytes) : Option Bucket :=
  (readPairs s.length s).map fun es => Table.ofList (es.map fun (k, v) => (k, some v))

/-- Reads the image of all buckets. -/
def decode (s : Bytes) : Option Buckets := do
  if s.take signature.length ≠ signature then none
  let body := s.drop signature.length
  let named ← readPairs body.length body
  let buckets ← named.mapM fun (name, b) => (toBucket? b).map fun bucket => (name, bucket)
  some (Table.ofList buckets)

end CounterLedger.Image
