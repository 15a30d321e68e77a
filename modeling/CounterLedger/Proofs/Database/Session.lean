/-
Transactions on one database, one after the other. A transaction answers from the contents at its
start with its own earlier writes over them. Its writes become the contents when it succeeds and are
gone when it does not, and its callbacks are run by its own commit or never.
-/
import CounterLedger.Database.Session
import CounterLedger.Proofs.Database.Scan
import CounterLedger.Proofs.Service.BackEnds
import CounterLedger.Proofs.Transcript
import Mathlib.Logic.Function.Basic

namespace CounterLedger

/-! ## Contents of a database -/

/-- What the buckets hold; a bucket that does not exist holds none. -/
abbrev Contents := Bytes → Option Memory

/-- A write that was accepted. The value of a deletion is none. -/
inductive Write where
  | create (name : Bytes)
  | put (name key : Bytes) (value : Payload)

namespace Contents

/-- The value of a key; a missing bucket reads as an empty one. -/
def read (c : Contents) (name key : Bytes) : Payload := (c name).bind fun m => m key

/-- The contents after a write. A bucket that is there already is not created anew. -/
def after (c : Contents) : Write → Contents
  | .create name => Function.update c name (some ((c name).getD Memory.empty))
  | .put name key value => Function.update c name ((c name).map fun m => m.put key value)

/-- The contents with writes laid over them, the last one on top. -/
def overlaid (c : Contents) (ws : List Write) : Contents := ws.foldl after c

theorem overlaid_append (c : Contents) (ws : List Write) (w : Write) :
    c.overlaid (ws ++ [w]) = (c.overlaid ws).after w := by
  simp [overlaid]

theorem after_create_present {c : Contents} {name : Bytes} {m : Memory} (h : c name = some m) :
    c.after (.create name) = c := by
  rw [after, h, Option.getD_some, ← h, Function.update_eq_self]

theorem read_of_present {c : Contents} {name : Bytes} {m : Memory} (h : c name = some m) : c.read name = m := by
  funext k
  rw [read, h, Option.bind_some]

end Contents

theorem Bucket.read_insert (b : Bucket) (k : Bytes) (v : Payload) :
    Bucket.read (b.insert k v) = Memory.put b.read k v := by
  funext k'
  by_cases h : k = k'
  · simp [Bucket.read, h]
  · simp [Bucket.read, h, Memory.put_other _ _ (Ne.symm h)]

theorem Bucket.read_erase (b : Bucket) (k : Bytes) : Bucket.read (b.erase k) = Memory.put b.read k none := by
  funext k'
  by_cases h : k = k'
  · simp [Bucket.read, h]
  · simp [Bucket.read, h, Memory.put_other _ _ (Ne.symm h)]

namespace Transaction

variable {tx : Transaction} {name : Bytes}

/-- What the buckets hold as the transaction sees them. -/
def contents (tx : Transaction) : Contents := fun name => if tx.hasBucket name then some (tx.bucket name).read else none

theorem contents_of_hasBucket (h : tx.hasBucket name = true) : tx.contents name = some (tx.bucket name).read :=
  if_pos h

theorem isSome_contents (tx : Transaction) (name : Bytes) : (tx.contents name).isSome = tx.hasBucket name := by
  rw [contents]
  cases tx.hasBucket name <;> rfl

theorem hasBucket_insert (tx : Transaction) (name n : Bytes) (b : Bucket) :
    hasBucket { tx with buckets := tx.buckets.insert name b } n = (decide (name = n) || tx.hasBucket n) := by
  by_cases h : name = n <;> simp [hasBucket, Table.contains, h]

theorem contents_insert (tx : Transaction) (name : Bytes) (b : Bucket) :
    contents { tx with buckets := tx.buckets.insert name b } = Function.update tx.contents name (some b.read) := by
  funext n
  by_cases h : name = n
  · subst h
    simp [contents, hasBucket_insert, bucket_insert]
  · simp [contents, hasBucket_insert, bucket_insert, h, Function.update_of_ne (Ne.symm h)]

theorem contents_put (h : tx.hasBucket name = true) {b : Bucket} {k : Bytes} {v : Payload}
    (hb : b.read = Memory.put (tx.bucket name).read k v) :
    contents { tx with buckets := tx.buckets.insert name b } = tx.contents.after (.put name k v) := by
  rw [contents_insert, Contents.after, contents_of_hasBucket h, Option.map_some, hb]

theorem contents_create (h : tx.hasBucket name = false) :
    contents { tx with buckets := tx.buckets.insert name Table.empty } = tx.contents.after (.create name) := by
  have hmissing : tx.contents name = none := by rw [contents, h]; rfl
  rw [contents_insert, Contents.after, hmissing]
  rfl

/-- Why a value is not written under a key. -/
def refusal (writable : Bool) (key : Bytes) : Option Fault :=
  if !writable then some .notWritable
  else if key = [] then some .keyRequired
  else if Bucket.maxKeyLength < key.length then some .keyTooLarge
  else none

theorem set_refused {k : Bytes} {f : Fault} (h : refusal tx.writable k = some f) (name : Bytes) (v : Payload) :
    tx.set name k v = (.error (.fault f), tx) := by
  unfold refusal at h
  unfold set Bucket.write
  split_ifs at h ⊢ <;> simp_all

theorem refusal_eq_none {w : Bool} {k : Bytes} (h : refusal w k = none) : w = true ∧ Writable k := by
  unfold refusal at h
  split_ifs at h with hw hk hlong
  exact ⟨by simpa using hw, hk, Nat.not_lt.1 hlong⟩

/-- A bucket whose keys all have values takes its place among others like it. -/
theorem allValues_insert {b : Bucket} (hb : ∀ k, b.get? k ≠ some none) (h : ∀ n, tx.AllValues n) (name n : Bytes) :
    AllValues n { tx with buckets := tx.buckets.insert name b } := by
  intro k
  rw [bucket_insert]
  split
  · exact hb k
  · exact h n k

/-- Committing changes no contents when every key has a value. -/
theorem contents_committed (tx' : Transaction) (h : ∀ n, tx.AllValues n)
    (htx : tx'.buckets = tx.buckets.mapValues Bucket.committed) :
    (∀ n, tx'.AllValues n) ∧ tx'.contents = tx.contents := by
  refine ⟨fun n => ((h n).committed htx).1, funext fun n => ?_⟩
  have hsame : tx'.hasBucket n = tx.hasBucket n := by
    simp only [hasBucket, Table.contains, htx, Table.get?_mapValues, Option.isSome_map]
  rw [contents, contents, hsame, show (tx'.bucket n).read = (tx.bucket n).read from funext ((h n).committed htx).2]

end Transaction

namespace Database

/-! ## Answers -/

/-- The entries of a bucket whose keys begin with the given bytes, in ascending order. -/
structure Listing (m : Memory) (start : Bytes) (l : List (Bytes × Payload)) : Prop where
  sorted : l.Pairwise fun e e' => e.1 < e'.1
  exact : ∀ k v, (k, v) ∈ l ↔ start <+: k ∧ m k = v ∧ v ≠ none

/-- How the visitors of walks fail. -/
def stopped : Error := .fault (.custom (utf8 "stop"))

/-- The answer of a walk over a list of entries, which ends in a failure if it is stopped before
the end of the list. -/
def walking (failure : Error) (l : List (Bytes × Payload)) : Option Nat → Answer
  | none => { result := .ok .done, visited := some l }
  | some n =>
    if n < l.length then { result := .error failure, visited := some (l.take n) }
    else { result := .ok .done, visited := some l }

/-- The answer of a move in a transaction, which may write or not, that sees these contents and has
this bucket as its current one. -/
def Answered (writable : Bool) (seen : Contents) (current : Option Bytes) (m : Move) (a : Answer) : Prop :=
  match m, current with
  | .bucket name, _ => a = { result := .ok (.found (seen name).isSome) }
  | .create name, _ =>
    a = { result :=
      if !writable then .abort none
      else if name = [] then .error (.report .createBucket (.fault .bucketNameRequired))
      else .ok .done }
  | .onCommit _, _ => a = { result := if writable then .ok .done else .abort none }
  | .storeGet key, current => a = { result := .ok (.value (current.bind fun name => seen.read name key)) }
  | .fail, _ => a = { result := .ok .done }
  | _, none => a = { result := .abort none }
  | .get key, some name => a = { result := .ok (.value (seen.read name key)) }
  | .set key _, some _ =>
    a = { result := ((Transaction.refusal writable key).map fun why => .error (.fault why)).getD (.ok .done) }
  | .delete _, some _ => a = { result := if writable then .ok .done else .error (.fault .notWritable) }
  | .forEach stopAt, some name => ∃ l, Listing (seen.read name) [] l ∧ a = walking stopped l stopAt
  | .scan start stopAt, some name =>
    ∃ l, Listing (seen.read name) start l ∧ a = walking (.report .callback stopped) l stopAt

theorem listing_matching {b : Bucket} (hb : ∀ k, b.get? k ≠ some none) (start : Bytes) :
    Listing b.read start (b.matching start) := by
  refine ⟨b.sorted_matching start, fun k v => ?_⟩
  rw [Bucket.mem_matching_iff, and_comm]
  refine and_congr_right fun _ => ?_
  have hk := hb k
  rw [Bucket.read]
  cases hget : b.get? k with
  | none => simp +contextual [eq_comm]
  | some v' =>
    rw [hget] at hk
    constructor
    · rintro ⟨⟩
      exact ⟨rfl, fun h => hk (congrArg some h)⟩
    · rintro ⟨rfl, -⟩
      rfl

/-- A collector goes on as long as it has not seen the number of entries at which it stops. -/
theorem visit_collector (stopAt : Option Nat) (l seen : List (Bytes × Payload))
    (h : ∀ n, stopAt = some n → seen.length ≤ n) :
    Bucket.visit (collector stopAt) l seen =
      match stopAt with
      | none => (.ok (), seen ++ l)
      | some n =>
        if n < seen.length + l.length then (.error stopped, (seen ++ l).take n) else (.ok (), seen ++ l) := by
  induction l generalizing seen with
  | nil =>
    cases stopAt with
    | none => simp [Bucket.visit]
    | some n => simp [Bucket.visit, Nat.not_lt.2 (h n rfl)]
  | cons e rest ih =>
    cases stopAt with
    | none =>
      rw [Bucket.visit, collector, if_neg (by simp)]
      simp only
      rw [ih _ (by simp)]
      simp
    | some n =>
      have hn := h n rfl
      rw [Bucket.visit, collector]
      by_cases hstop : n = seen.length
      · simp [hstop, stopped]
      · rw [if_neg (by simpa using hstop)]
        simp only
        rw [ih _ (by intro n' hn'; injection hn' with hn'; subst hn'; simp; omega)]
        simp [Nat.add_comm 1, Nat.add_assoc]

theorem walked_forEach {b : Bucket} (stopAt : Option Nat) :
    walked (b.forEach (collector stopAt) []) = walking stopped (b.matching []) stopAt := by
  rw [Bucket.forEach, visit_collector _ _ _ (by simp), Bucket.matching_nil]
  cases stopAt with
  | none => rfl
  | some n =>
    by_cases h : n < b.entries.length <;> simp [walking, walked, h, Outcome.ofExcept, Outcome.map]

theorem walked_scan {b : Bucket} (start : Bytes) (stopAt : Option Nat) :
    walked (b.scan start (collector stopAt) []) = walking (.report .callback stopped) (b.matching start) stopAt := by
  rw [Bucket.scan_eq, visit_collector _ _ _ (by simp)]
  cases stopAt with
  | none => rfl
  | some n =>
    by_cases h : n < (b.matching start).length <;>
      simp [walking, walked, h, Outcome.ofExcept, Outcome.map, Except.mapError]

/-! ## What the answers tell -/

/-- What is known of a transaction from the answers it has given. -/
structure Trail where
  current : Option Bytes := none
  /-- The writes that were accepted. -/
  writes : List Write := []
  /-- The callbacks that were registered. -/
  callbacks : List Bytes := []

namespace Trail

def after (t : Trail) (note : Move × Answer) : Trail :=
  match note.1, note.2.result with
  | .bucket name, .ok (.found true) => { t with current := some name }
  | .bucket _, _ => { t with current := none }
  | .create name, .ok _ => { t with current := some name, writes := t.writes ++ [.create name] }
  | .onCommit callback, .ok _ => { t with callbacks := t.callbacks ++ [callback] }
  | .set key value, .ok _ =>
    { t with writes := t.writes ++ t.current.toList.map fun name => .put name key value }
  | .delete key, .ok _ => { t with writes := t.writes ++ t.current.toList.map fun name => .put name key none }
  | _, _ => t

def following (t : Trail) (notes : List (Move × Answer)) : Trail := notes.foldl after t

/-- A transaction that began with these contents stands where the trail leads. -/
structure LeadsTo (t : Trail) (writable : Bool) (c : Contents) (d : Desk) : Prop where
  writable : d.tx.writable = writable
  contents : d.tx.contents = c.overlaid t.writes
  current : d.current = t.current
  standing : ∀ name, d.current = some name → d.tx.hasBucket name = true
  callbacks : d.tx.callbacks = t.callbacks
  values : ∀ name, d.tx.AllValues name

variable {t : Trail} {w : Bool} {c : Contents} {d : Desk}

/-- A move is answered from the start overlaid with the earlier writes, and the trail goes on with it. -/
structure GoesOn (t : Trail) (writable : Bool) (c : Contents) (d : Desk) (m : Move) : Prop where
  answered : Answered writable (c.overlaid t.writes) t.current m (d.step m).1
  leadsTo : (t.after (m, (d.step m).1)).LeadsTo writable c (d.step m).2

theorem GoesOn.of_step {m : Move} {a : Answer} {d' : Desk} (hstep : d.step m = (a, d'))
    (ha : Answered w (c.overlaid t.writes) t.current m a) (hd : (t.after (m, a)).LeadsTo w c d') :
    t.GoesOn w c d m :=
  ⟨by rwa [hstep], by rwa [hstep]⟩

theorem LeadsTo.stays (h : t.LeadsTo w c d) {m : Move} {a : Answer} (hstep : d.step m = (a, d))
    (hkept : t.after (m, a) = t) (ha : Answered w d.tx.contents d.current m a) : t.GoesOn w c d m := by
  rw [h.contents, h.current] at ha
  exact .of_step hstep ha (by rwa [hkept])

/-- The buckets may change as the trail does. -/
theorem LeadsTo.wrote (h : t.LeadsTo w c d) (current : Option Bytes) {buckets : Buckets} {ws : List Write}
    (hcontents : Transaction.contents { d.tx with buckets } = c.overlaid (t.writes ++ ws))
    (hstanding : ∀ name, current = some name → Transaction.hasBucket { d.tx with buckets } name = true)
    (hvalues : ∀ name, Transaction.AllValues name { d.tx with buckets }) :
    ({ t with current, writes := t.writes ++ ws } : Trail).LeadsTo w c { tx := { d.tx with buckets }, current } :=
  ⟨h.writable, hcontents, rfl, hstanding, h.callbacks, hvalues⟩

/-- An entry of the current bucket is written or deleted. -/
theorem LeadsTo.put (h : t.LeadsTo w c d) {name key : Bytes} (hname : d.current = some name) {v : Payload} {b : Bucket}
    (hread : b.read = Memory.put (d.tx.bucket name).read key v) (hb : ∀ k, b.get? k ≠ some none) :
    ({ t with writes := t.writes ++ t.current.toList.map fun name => .put name key v } : Trail).LeadsTo w c
      { d with tx := { d.tx with buckets := d.tx.buckets.insert name b } } := by
  have hcurrent : t.current = some name := h.current ▸ hname
  have hcontents : Transaction.contents { d.tx with buckets := d.tx.buckets.insert name b } =
      c.overlaid (t.writes ++ [.put name key v]) := by
    rw [Transaction.contents_put (h.standing name hname) hread, Contents.overlaid_append, h.contents]
  have hwrote := h.wrote t.current hcontents
    (by rw [hcurrent]; rintro _ ⟨⟩; simp [Transaction.hasBucket_insert]) (Transaction.allValues_insert hb h.values name)
  rw [hcurrent] at hwrote ⊢
  rwa [hname]

theorem LeadsTo.bucket (h : t.LeadsTo w c d) (name : Bytes) : t.GoesOn w c d (.bucket name) := by
  have hfound := d.tx.isSome_contents name
  rw [h.contents] at hfound
  refine ⟨by simp only [Answered, Desk.step, hfound], ?_⟩
  cases hb : d.tx.hasBucket name with
  | true =>
    simp only [Desk.step, hb, after, if_true]
    exact { h with current := rfl, standing := by rintro _ ⟨⟩; exact hb }
  | false =>
    simp only [Desk.step, hb, after]
    exact { h with current := rfl, standing := by rintro _ ⟨⟩ }

theorem LeadsTo.create (h : t.LeadsTo w c d) (name : Bytes) : t.GoesOn w c d (.create name) := by
  obtain rfl := h.writable
  cases hw : d.tx.writable with
  | false => exact hw ▸ h.stays (a := { result := .abort none }) (by simp [Desk.step, hw]) rfl (by simp [Answered, hw])
  | true =>
    by_cases hname : name = []
    · exact hw ▸ h.stays (a := { result := .error (.report .createBucket (.fault .bucketNameRequired)) })
        (by simp [Desk.step, Transaction.createBucket, hw, hname]) rfl (by simp [Answered, hw, hname])
    have hanswered : Answered true (c.overlaid t.writes) t.current (.create name) { result := .ok .done } := by
      simp [Answered, hname]
    cases hb : d.tx.hasBucket name with
    | true =>
      have hstep : d.step (.create name) = ({ result := .ok .done }, { d with current := some name }) := by
        simp [Desk.step, Transaction.createBucket, hw, hname, hb]
      -- the bucket keeps its entries, and the write on the trail keeps them as well
      have hsame : c.overlaid (t.writes ++ [.create name]) = d.tx.contents := by
        rw [Contents.overlaid_append, ← h.contents, Contents.after_create_present (d.tx.contents_of_hasBucket hb)]
      exact .of_step hstep hanswered (hw ▸ h.wrote (some name) hsame.symm (by rintro _ ⟨⟩; exact hb) h.values)
    | false =>
      have hstep : d.step (.create name) = ({ result := .ok .done },
          { tx := { d.tx with buckets := d.tx.buckets.insert name Table.empty }, current := some name }) := by
        simp [Desk.step, Transaction.createBucket, hw, hname, hb]
      have hnew : Transaction.contents { d.tx with buckets := d.tx.buckets.insert name Table.empty } =
          c.overlaid (t.writes ++ [.create name]) := by
        rw [Transaction.contents_create hb, Contents.overlaid_append, h.contents]
      refine .of_step hstep hanswered (hw ▸ h.wrote (some name) hnew ?_ ?_)
      · rintro _ ⟨⟩
        simp [Transaction.hasBucket_insert]
      · exact Transaction.allValues_insert (by simp) h.values name

theorem LeadsTo.onCommit (h : t.LeadsTo w c d) (callback : Bytes) : t.GoesOn w c d (.onCommit callback) := by
  obtain rfl := h.writable
  cases hw : d.tx.writable with
  | false => exact hw ▸ h.stays (a := { result := .abort none }) (by simp [Desk.step, hw]) rfl (by simp [Answered, hw])
  | true =>
    have hstep : d.step (.onCommit callback) = ({ result := .ok .done }, { d with tx := d.tx.onCommit callback }) := by
      simp [Desk.step, hw]
    exact .of_step hstep rfl
      ⟨hw, h.contents, h.current, h.standing, congrArg (· ++ [callback]) h.callbacks, h.values⟩

section Current

variable {name : Bytes} (hname : d.current = some name)

include hname

theorem LeadsTo.set (h : t.LeadsTo w c d) (key : Bytes) {v : Payload} (hv : w = true → v ≠ none) :
    t.GoesOn w c d (.set key v) := by
  obtain rfl := h.writable
  have hset : d.step (.set key v) = d.plainly (d.tx.set name key v) := by simp only [Desk.step, hname]
  cases hr : Transaction.refusal d.tx.writable key with
  | some why =>
    rw [Transaction.set_refused hr] at hset
    exact h.stays hset rfl (by rw [hname]; simp [Answered, hr, Outcome.ofExcept, Outcome.map])
  | none =>
    obtain ⟨hw, hkey⟩ := Transaction.refusal_eq_none hr
    rw [Transaction.set_ok hw hkey] at hset
    refine .of_step hset ?_ (h.put hname (Bucket.read_insert _ _ _) fun k => ?_)
    · rw [← h.current, hname]
      simp [Answered, hr, Outcome.ofExcept, Outcome.map]
    · rw [Table.get?_insert]
      split
      · simpa using hv hw
      · exact h.values name k

theorem LeadsTo.delete (h : t.LeadsTo w c d) (key : Bytes) : t.GoesOn w c d (.delete key) := by
  obtain rfl := h.writable
  have hdelete : d.step (.delete key) = d.plainly (d.tx.delete name key) := by simp only [Desk.step, hname]
  cases hw : d.tx.writable with
  | false =>
    rw [Transaction.delete, if_pos (by simp [hw])] at hdelete
    exact hw ▸ h.stays hdelete rfl (by rw [hname, hw]; rfl)
  | true =>
    rw [Transaction.delete, if_neg (by simp [hw])] at hdelete
    refine .of_step hdelete ?_ (hw ▸ h.put hname (Bucket.read_erase _ _) fun k => ?_)
    · rw [← h.current, hname]
      rfl
    · rw [Table.get?_erase]
      split
      · simp
      · exact h.values name k

theorem LeadsTo.read_current (h : t.LeadsTo w c d) : d.tx.contents.read name = (d.tx.bucket name).read :=
  Contents.read_of_present (Transaction.contents_of_hasBucket (h.standing name hname))

end Current

theorem LeadsTo.step (h : t.LeadsTo w c d) {m : Move} (hm : w = true → ∀ key, m ≠ .set key none) :
    t.GoesOn w c d m := by
  cases m with
  | bucket name => exact h.bucket name
  | create name => exact h.create name
  | onCommit callback => exact h.onCommit callback
  | fail => exact h.stays rfl rfl rfl
  | set key v =>
    cases hname : d.current with
    | none => exact h.stays (by simp only [Desk.step, hname]; rfl) rfl (by rw [hname]; rfl)
    | some name =>
      refine h.set hname key fun hw hv => hm hw key ?_
      rw [hv]
  | delete key =>
    cases hname : d.current with
    | none => exact h.stays (by simp only [Desk.step, hname]; rfl) rfl (by rw [hname]; rfl)
    | some name => exact h.delete hname key
  | storeGet key =>
    refine h.stays rfl rfl ?_
    cases hname : d.current with
    | none => rfl
    | some name => simp [Answered, h.read_current hname, Transaction.get]
  | get key =>
    cases hname : d.current with
    | none => exact h.stays (by simp only [Desk.step, hname]; rfl) rfl (by rw [hname]; rfl)
    | some name =>
      refine h.stays (by simp only [Desk.step, hname]; rfl) rfl ?_
      rw [hname, Answered, h.read_current hname]
      rfl
  | forEach stopAt =>
    cases hname : d.current with
    | none => exact h.stays (by simp only [Desk.step, hname]; rfl) rfl (by rw [hname]; rfl)
    | some name =>
      refine h.stays (by simp only [Desk.step, hname]; rfl) rfl ?_
      rw [hname, Answered, h.read_current hname]
      exact ⟨_, listing_matching (h.values name) [], walked_forEach stopAt⟩
  | scan start stopAt =>
    cases hname : d.current with
    | none => exact h.stays (by simp only [Desk.step, hname]; rfl) rfl (by rw [hname]; rfl)
    | some name =>
      refine h.stays (by simp only [Desk.step, hname]; rfl) rfl ?_
      rw [hname, Answered, h.read_current hname]
      exact ⟨_, listing_matching (h.values name) start, walked_scan start stopAt⟩

end Trail

/-! ## Open databases -/

/-- Every key of every bucket has a value. -/
def Valued (buckets : Buckets) : Prop := ∀ n, Transaction.AllValues n { writable := false, buckets }

theorem valued_committed (buckets : Buckets) : Valued (buckets.mapValues Bucket.committed) := by
  intro n k
  rw [Transaction.bucket, Table.get?_mapValues]
  cases buckets.get? n with
  | none => simp
  | some b =>
    rw [Option.map_some, Option.getD_some, Bucket.committed, Table.get?_mapValues]
    cases b.get? k <;> simp

/-- A session that has a database open which it keeps in a file. -/
structure Session.Serves (s : Session) (name : Bytes) (db : Database) : Prop where
  opened : s.opened = some (name, db)
  isOpen : db.isOpen = true
  values : Valued db.buckets
  stored : s.directory.get? name = some (.database db.buckets)

def Session.contents (s : Session) : Contents :=
  match s.opened with
  | none => fun _ => none
  | some (_, db) => db.reader.contents

/-- Databases on file have no absent values, and the open one is as on file. -/
structure Session.Sound (s : Session) : Prop where
  files : ∀ name buckets, s.directory.get? name = some (.database buckets) → Valued buckets
  opened : ∀ name db, s.opened = some (name, db) → s.directory.get? name = some (.database db.buckets)

theorem Session.Sound.store {s : Session} (h : s.Sound) (name : Bytes) {db : Database} (hdb : Valued db.buckets) :
    Session.Sound { directory := s.directory.store name db, opened := some (name, db) } := by
  constructor
  · intro n buckets hn
    rw [Directory.store, Table.get?_insert] at hn
    split at hn
    · obtain rfl : db.buckets = buckets := by simpa using hn
      exact hdb
    · exact h.files n buckets hn
  · rintro _ _ ⟨⟩
    rw [Directory.store, Table.get?_insert, if_pos rfl]

theorem Session.Sound.step {s : Session} (h : s.Sound) (i : Step) : (s.step i).2.Sound := by
  cases i with
  | «open» path =>
    simp only [Session.step, Directory.openDatabase]
    cases s.directory.target path with
    | error why => exact h
    | ok name =>
      simp only
      split
      · rename_i name' db directory hopened
        split at hopened
        · rename_i buckets hfile
          obtain ⟨rfl, rfl, rfl⟩ : name = name' ∧ _ = db ∧ s.directory = directory := by simpa using hopened
          refine ⟨h.files, ?_⟩
          rintro _ _ ⟨⟩
          exact hfile
        · cases hopened
        · obtain ⟨rfl, rfl, rfl⟩ : name = name' ∧ {} = db ∧ _ = directory := by simpa using hopened
          have hempty : Valued ({} : Database).buckets := fun n k => by simp [Transaction.bucket]
          exact h.store name hempty
      · exact h
  | close =>
    simp only [Session.step]
    split
    · exact h
    · rename_i name db hopened
      refine ⟨h.files, ?_⟩
      rintro _ _ ⟨⟩
      exact h.opened name db hopened
  | view moves =>
    simp only [Session.step]
    split
    · exact h
    · split <;> exact h
  | update moves =>
    simp only [Session.step]
    split
    · exact h
    · rename_i name db hopened
      split
      · exact h
      · refine h.store name ?_
        have hdb := h.files name db.buckets (h.opened name db hopened)
        unfold finish
        split
        · exact valued_committed _
        · exact hdb
        · exact hdb

/-- Whatever steps are taken from an empty directory on, a database that is open is served. -/
theorem Session.serves_of_open (past : List Step) {name : Bytes} {db : Database}
    (hopened : (transcript (fun i s => s.step i) past ({} : Session)).2.opened = some (name, db))
    (hopen : db.isOpen = true) : (transcript (fun i s => s.step i) past ({} : Session)).2.Serves name db := by
  have hsound : (transcript (fun i s => Session.step s i) past ({} : Session)).2.Sound :=
    transcript_invariant (fun i _ s h => h.step i) ⟨fun _ _ h => by simp at h, fun _ _ h => by simp at h⟩
  have hstored := hsound.opened name db hopened
  exact ⟨hopened, hopen, hsound.files name _ hstored, hstored⟩

/-! ## One transaction -/

/-- Every read of a transaction sees the contents at its start overlaid with its own earlier writes:
each move is answered from what the trail of the moves before it comes to. -/
def Trail.Foretells (t : Trail) (writable : Bool) (start : Contents) (notes : List (Move × Answer)) : Prop :=
  ∀ earlier m a later, notes = earlier ++ (m, a) :: later →
    Answered writable (start.overlaid (t.following earlier).writes) (t.following earlier).current m a

theorem Trail.foretells_nil (t : Trail) (w : Bool) (c : Contents) : t.Foretells w c [] := by
  intro earlier m a later hsplit
  simp at hsplit

theorem Trail.foretells_cons {t : Trail} {w : Bool} {c : Contents} {m : Move} {a : Answer} {rest : List (Move × Answer)}
    (ha : Answered w (c.overlaid t.writes) t.current m a) (hrest : (t.after (m, a)).Foretells w c rest) :
    t.Foretells w c ((m, a) :: rest) := by
  intro earlier m' a' later hsplit
  cases earlier with
  | nil =>
    obtain ⟨⟨⟩, rfl⟩ := List.cons.inj hsplit
    exact ha
  | cons e earlier =>
    obtain ⟨rfl, hlater⟩ := List.cons.inj hsplit
    exact hrest earlier m' a' later hlater

/-- How a transaction ends with a move, if it does. -/
def closing : Move × Bool → Option (Outcome Unit)
  | (.fail, _) => some (.error (.fault (.custom (utf8 "oops"))))
  | (_, true) => some (.abort (some (utf8 "callback panic")))
  | (_, false) => none

/-- The moves up to the one with which the transaction ends. -/
def made : List (Move × Bool) → List Move
  | [] => []
  | x :: rest => x.1 :: if (closing x).isSome then [] else made rest

/-- How the transaction ends: with the first move that ends it, and otherwise in success. -/
def ending (moves : List (Move × Bool)) : Outcome Unit := (moves.findSome? closing).getD (.ok ())

theorem Desk.run_cons (d : Desk) (x : Move × Bool) (rest : List (Move × Bool)) :
    d.run (x :: rest) =
      match closing x with
      | some o => ([(d.step x.1).1], o, (d.step x.1).2)
      | none => ((d.step x.1).1 :: ((d.step x.1).2.run rest).1, ((d.step x.1).2.run rest).2) := by
  obtain ⟨m, cutOff⟩ := x
  cases m <;> cases cutOff <;> rfl

/-- No absent value is written by moves that may write. -/
def WritesValues (writable : Bool) (moves : List (Move × Bool)) : Prop :=
  writable = true → ∀ x ∈ moves, ∀ key, x.1 ≠ .set key none

theorem Trail.LeadsTo.run {t : Trail} {w : Bool} {c : Contents} {d : Desk} (h : t.LeadsTo w c d)
    {moves : List (Move × Bool)} (hv : WritesValues w moves) :
    let notes := (made moves).zip (d.run moves).1
    (d.run moves).1.length = (made moves).length ∧ (d.run moves).2.1 = ending moves ∧ t.Foretells w c notes ∧
      (t.following notes).LeadsTo w c (d.run moves).2.2 := by
  -- the invariant is where the trail leads, from any trail on
  induction moves generalizing t d with
  | nil => exact ⟨rfl, rfl, t.foretells_nil w c, h⟩
  | cons x rest ih =>
    obtain ⟨ha, hnext⟩ := h.step (hv · x List.mem_cons_self)
    rw [Desk.run_cons]
    cases hx : closing x with
    | some o =>
      have hmade : made (x :: rest) = [x.1] := by rw [made, hx]; rfl
      rw [hmade]
      exact ⟨rfl, by simp [ending, hx], Trail.foretells_cons ha (Trail.foretells_nil _ w c), hnext⟩
    | none =>
      have hmade : made (x :: rest) = x.1 :: made rest := by rw [made, hx]; rfl
      obtain ⟨hlength, hending, hforetold, hlast⟩ := ih hnext fun hw y hy => hv hw y (List.mem_cons_of_mem _ hy)
      rw [hmade]
      exact ⟨congrArg (· + 1) hlength, by simpa [ending, hx] using hending, Trail.foretells_cons ha hforetold, hlast⟩

/-- What a transaction is to do. -/
structure Body where
  writable : Bool
  moves : List (Move × Bool)

/-- The transaction as a step of a session: an update if it may write, and otherwise a view. -/
def Body.step (b : Body) : Step := if b.writable then .update b.moves else .view b.moves

def Body.notes (b : Body) (r : Reached) : List (Move × Answer) := (made b.moves).zip r.moves

def Body.trail (b : Body) (r : Reached) : Trail := ({} : Trail).following (b.notes r)

/-- The law of one transaction between the contents at its start and those after it. -/
structure Body.Lawful (b : Body) (start : Contents) (r : Reached) (next : Contents) : Prop where
  answers : r.moves.length = (made b.moves).length
  reads : ({} : Trail).Foretells b.writable start (b.notes r)
  outcome : r.outcome = ending b.moves
  contents : next = match r.outcome with
    | .ok () => start.overlaid (b.trail r).writes
    | _ => start
  callbacks : r.callbacks = match r.outcome with
    | .ok () => (b.trail r).callbacks
    | _ => []

theorem Desk.step_tx {d : Desk} (hw : d.tx.writable = false) (m : Move) : (d.step m).2.tx = d.tx := by
  cases m <;> cases hname : d.current <;>
    simp [Desk.step, hw, hname, Desk.plainly, Transaction.set, Transaction.delete]

/-- A transaction that cannot write changes nothing. -/
theorem Desk.run_tx {d : Desk} (hw : d.tx.writable = false) (moves : List (Move × Bool)) :
    (d.run moves).2.2.tx = d.tx := by
  induction moves generalizing d with
  | nil => rfl
  | cons x rest ih =>
    have hstep := Desk.step_tx hw x.1
    rw [Desk.run_cons]
    cases closing x with
    | some o => exact hstep
    | none => exact (ih (by rw [hstep, hw])).trans hstep

def desk (db : Database) (writable : Bool) : Desk := { tx := { writable, buckets := db.buckets } }

namespace Session.Serves

variable {s : Session} {name : Bytes} {db : Database}

theorem contents_eq (h : s.Serves name db) : s.contents = db.reader.contents := by
  rw [contents, h.opened]

theorem start_eq (h : s.Serves name db) (w : Bool) : db.start w = .ok (db.desk w).tx := by
  rw [start, if_pos h.isOpen]
  rfl

theorem leadsTo (h : s.Serves name db) (w : Bool) : ({} : Trail).LeadsTo w db.reader.contents (db.desk w) :=
  ⟨rfl, rfl, rfl, by rintro _ ⟨⟩, rfl, h.values⟩

theorem view (h : s.Serves name db) {moves : List (Move × Bool)} (hv : WritesValues false moves) :
    Body.Lawful ⟨false, moves⟩ s.contents (s.step (.view moves)).1 (s.step (.view moves)).2.contents ∧
      (s.step (.view moves)).2.Serves name db := by
  have hstep : s.step (.view moves) =
      ({ outcome := ((db.desk false).run moves).2.1, moves := ((db.desk false).run moves).1 }, s) := by
    simp only [Session.step, h.opened, h.start_eq]
    rfl
  obtain ⟨hlength, hending, hreads, hlast⟩ := (h.leadsTo false).run hv
  -- the transaction is as at its start, so the writes on its trail come to nothing
  have hcontents := hlast.contents
  have hcallbacks := hlast.callbacks
  rw [Desk.run_tx rfl] at hcontents hcallbacks
  rw [hstep, h.contents_eq]
  generalize (db.desk false).run moves = ran at *
  obtain ⟨answers, o, d⟩ := ran
  refine ⟨⟨hlength, hreads, hending, ?_, ?_⟩, h⟩
  · cases o with
    | ok => exact hcontents
    | error | abort => rfl
  · cases o with
    | ok => exact hcallbacks
    | error | abort => rfl

theorem update (h : s.Serves name db) {moves : List (Move × Bool)} (hv : WritesValues true moves) :
    Body.Lawful ⟨true, moves⟩ s.contents (s.step (.update moves)).1 (s.step (.update moves)).2.contents ∧
      ∃ db', (s.step (.update moves)).2.Serves name db' := by
  have hstep : s.step (.update moves) =
      let ran := (db.desk true).run moves
      let finished := db.finish ran.2.1 ran.2.2.tx
      ({ outcome := finished.1, moves := ran.1, callbacks := finished.2.1 },
        { directory := s.directory.store name finished.2.2, opened := some (name, finished.2.2) }) := by
    simp only [Session.step, h.opened, h.start_eq]
    rfl
  obtain ⟨hlength, hending, hreads, hlast⟩ := (h.leadsTo true).run hv
  rw [hstep, h.contents_eq]
  generalize (db.desk true).run moves = ran at *
  obtain ⟨answers, o, d⟩ := ran
  cases o with
  | ok =>
    obtain ⟨hvalues, hcontents⟩ := Transaction.contents_committed (db.finish (.ok ()) d.tx).2.2.reader hlast.values rfl
    exact ⟨⟨hlength, hreads, hending, hcontents.trans hlast.contents, hlast.callbacks⟩, _, rfl, h.isOpen, hvalues,
      by simp [finish, Directory.store]⟩
  | error | abort =>
    exact ⟨⟨hlength, hreads, hending, rfl, rfl⟩, db, rfl, h.isOpen, h.values, by simp [finish, Directory.store]⟩

end Session.Serves

/-! ## Transactions one after the other -/

/-- A transaction, with what the database holds right after it. -/
def Session.execute (s : Session) (b : Body) : (Reached × Contents) × Session :=
  (((s.step b.step).1, (s.step b.step).2.contents), (s.step b.step).2)

theorem Session.Serves.execute {s : Session} {name : Bytes} {db : Database} (h : s.Serves name db) {b : Body}
    (hb : WritesValues b.writable b.moves) :
    b.Lawful s.contents (s.execute b).1.1 (s.execute b).1.2 ∧ ∃ db', (s.execute b).2.Serves name db' := by
  obtain ⟨w, moves⟩ := b
  cases w with
  | false => exact ⟨(h.view hb).1, db, (h.view hb).2⟩
  | true => exact h.update hb

/-- Transactions that are lawful one after the other: each starts from what the one before left. -/
inductive Serial : Contents → List Body → List (Reached × Contents) → Prop where
  | nil (c : Contents) : Serial c [] []
  | cons {c next : Contents} {b : Body} {bs : List Body} {r : Reached} {rest : List (Reached × Contents)} :
      b.Lawful c r next → Serial next bs rest → Serial c (b :: bs) ((r, next) :: rest)

/-- The callbacks that are run by a sequence of transactions, each with what the database holds when
it is run. -/
def sightings (run : List (Reached × Contents)) : List (Bytes × Contents) :=
  run.flatMap fun e => e.1.callbacks.map fun callback => (callback, e.2)

/-- The callbacks that are to be run, each with what it is to see: those that were registered in
transactions that succeed, in this order, once their writes are committed. -/
def due : Contents → List Body → List Reached → List (Bytes × Contents)
  | c, b :: bs, r :: rs =>
    match r.outcome with
    | .ok () =>
      let next := c.overlaid (b.trail r).writes
      ((b.trail r).callbacks.map fun callback => (callback, next)) ++ due next bs rs
    | _ => due c bs rs
  | _, _, _ => []

theorem Serial.sightings {c : Contents} {bs : List Body} {run : List (Reached × Contents)} (h : Serial c bs run) :
    Database.sightings run = due c bs (run.map Prod.fst) := by
  induction h with
  | nil => rfl
  | @cons c next b bs r rest hb _ ih =>
    have hcontents := hb.contents
    have hcallbacks := hb.callbacks
    rw [List.map_cons, due]
    cases ho : r.outcome with
    | ok =>
      rw [ho] at hcontents hcallbacks
      subst hcontents
      rw [Database.sightings, List.flatMap_cons, hcallbacks]
      exact congrArg _ ih
    | error | abort =>
      rw [ho] at hcontents hcallbacks
      subst hcontents
      rw [Database.sightings, List.flatMap_cons, hcallbacks]
      exact ih

theorem serial_of_serves {s : Session} {name : Bytes} {db : Database} (h : s.Serves name db) {bs : List Body}
    (hbs : ∀ b ∈ bs, WritesValues b.writable b.moves) :
    Serial s.contents bs (transcript (fun b s => s.execute b) bs s).1 ∧
      ∃ db', (transcript (fun b s => s.execute b) bs s).2.Serves name db' := by
  induction bs generalizing s db with
  | nil => exact ⟨.nil _, db, h⟩
  | cons b rest ih =>
    obtain ⟨hb, db', hnext⟩ := h.execute (hbs b List.mem_cons_self)
    obtain ⟨hrest, hlast⟩ := ih hnext fun b' hb' => hbs b' (List.mem_cons_of_mem _ hb')
    exact ⟨.cons hb hrest, hlast⟩

/-- Transactions on one database, any number of updates and views that make any moves. Every read
inside one of them sees the contents at its start overlaid with its own earlier writes. What it wrote
is committed if it succeeds, and the contents are those at its start if it ends in an error or is cut
off. The callbacks that are run are those registered in the updates that succeed, once each and in
their order, on the contents that their own update has committed. -/
theorem transactions_serial {s : Session} {name : Bytes} {db : Database} (h : s.Serves name db) {bs : List Body}
    (hbs : ∀ b ∈ bs, WritesValues b.writable b.moves) :
    let run := transcript (fun b s => s.execute b) bs s
    Serial s.contents bs run.1 ∧ sightings run.1 = due s.contents bs (run.1.map Prod.fst) ∧
      ∃ db', run.2.Serves name db' ∧ run.2.contents = db'.reader.contents := by
  obtain ⟨hserial, db', hlast⟩ := serial_of_serves h hbs
  exact ⟨hserial, hserial.sightings, db', hlast, hlast.contents_eq⟩

/-- An update, one that fails after it has undone everything and one that is cut off, with a view
that sees none of it and a last update that writes nothing. -/
def mixedBodies : List Body :=
  [⟨true, [(.create [0x62], false), (.onCommit [1], false), (.set [0x6b] (some [0x31]), false), (.set [] (some []), false),
      (.onCommit [2], false)]⟩,
    ⟨true, [(.bucket [0x62], false), (.onCommit [3], false), (.delete [0x6b], false), (.create [0x63], false),
      (.fail, false)]⟩,
    ⟨true, [(.bucket [0x62], false), (.set [0x6b] (some []), false), (.onCommit [4], true)]⟩,
    ⟨false, [(.bucket [0x63], false), (.bucket [0x62], false), (.onCommit [5], false), (.get [0x6b], false)]⟩,
    ⟨true, [(.onCommit [6], false)]⟩]

theorem transactions_serial_mixed :
    let s := (transcript (fun i s => Session.step s i) [.open [0x64]] {}).2
    let run := transcript (fun b s => s.execute b) mixedBodies s
    s.Serves [0x64] {} ∧ (∀ b ∈ mixedBodies, WritesValues b.writable b.moves) ∧
      (Serial s.contents mixedBodies run.1 ∧ sightings run.1 = due s.contents mixedBodies (run.1.map Prod.fst) ∧
        ∃ db', run.2.Serves [0x64] db' ∧ run.2.contents = db'.reader.contents) ∧
      (run.1.map fun e => e.1.callbacks) = [[[1], [2]], [], [], [], [[6]]] ∧
      (run.1.map fun e => e.2.read [0x62] [0x6b]) = List.replicate 5 (some [0x31]) := by
  intro s run
  have hserves : s.Serves [0x64] {} := Session.serves_of_open [.open [0x64]] rfl rfl
  have hvalues : ∀ b ∈ mixedBodies, WritesValues b.writable b.moves := by
    simp only [mixedBodies, WritesValues, List.forall_mem_cons, List.not_mem_nil]
    simp
  exact ⟨hserves, hvalues, transactions_serial hserves hvalues, rfl, rfl⟩

end Database

end CounterLedger
