/-
The database behind a host, seen through its contents. A bucket of a writable transaction is a
faithful store for every key that can be written, and namespaced keys can. A state-changing call of
a host that works is therefore an invocation on the memory of the contracts at the next height,
and what the invocation leaves is committed exactly when it succeeds.
-/
import CounterLedger.Host.Basic
import CounterLedger.Proofs.Namespace
import CounterLedger.Proofs.Service.Memory

namespace CounterLedger

variable {α β : Type}

theorem Table.findEntry_map (f : α → β) (k : Bytes) (l : List (Bytes × α)) :
    Table.findEntry k (l.map fun e => (e.1, f e.2)) = (Table.findEntry k l).map f := by
  induction l with
  | nil => rfl
  | cons e rest ih =>
    simp only [List.map_cons, Table.findEntry]
    split
    · rfl
    · exact ih

theorem Table.get?_mapValues (f : α → β) (t : Table α) (k : Bytes) :
    (t.mapValues f).get? k = (t.get? k).map f :=
  Table.findEntry_map f k t.entries

namespace Transaction

/-! ## Buckets of a transaction -/

theorem bucket_insert (tx : Transaction) (name n : Bytes) (b : Bucket) :
    bucket { tx with buckets := tx.buckets.insert name b } n = if name = n then b else tx.bucket n := by
  simp only [bucket, Table.get?_insert]
  split <;> rfl

/-- Creating a bucket changes no contents: a missing bucket is like an empty one. -/
theorem createBucket_ok {tx : Transaction} {name : Bytes} (hw : tx.writable = true) (hn : name ≠ []) :
    ∃ tx', tx.createBucket name = (.ok (), tx') ∧ tx'.writable = true ∧ ∀ n, tx'.bucket n = tx.bucket n := by
  rw [createBucket, if_neg (by simp [hw]), if_neg hn]
  split
  · exact ⟨tx, rfl, hw, fun _ => rfl⟩
  · rename_i hmissing
    refine ⟨_, rfl, hw, fun n => ?_⟩
    rw [bucket_insert]
    split
    · rename_i hname
      subst hname
      simp only [hasBucket, Table.contains, Option.isSome_iff_ne_none, ne_eq, not_not] at hmissing
      simp [bucket, hmissing]
    · rfl

/-- The keys that can be written. -/
def Writable (k : Bytes) : Prop := k ≠ [] ∧ k.length ≤ Bucket.maxKeyLength

theorem writable_key (space k : Bytes) : Writable (Namespace.key space k) :=
  ⟨Namespace.key_ne_nil space k, by rw [Namespace.length_key]; decide⟩

theorem set_ok {tx : Transaction} {k : Bytes} (hw : tx.writable = true) (hk : Writable k) (name : Bytes)
    (v : Payload) :
    tx.set name k v = (.ok (), { tx with buckets := tx.buckets.insert name ((tx.bucket name).insert k v) }) := by
  simp [set, Bucket.write, hw, hk.1, Nat.not_lt.2 hk.2]

theorem get_set (tx : Transaction) (name n k k' : Bytes) (v : Payload) :
    get n k' { tx with buckets := tx.buckets.insert name ((tx.bucket name).insert k v) } =
      if name = n ∧ k = k' then v else tx.get n k' := by
  unfold get
  rw [bucket_insert]
  by_cases hn : name = n
  · subst hn
    by_cases hk : k = k' <;> simp [Bucket.read, hk]
  · simp [hn]

theorem get_erase (tx : Transaction) (name k k' : Bytes) :
    get name k' { tx with buckets := tx.buckets.insert name ((tx.bucket name).erase k) } =
      if k = k' then none else tx.get name k' := by
  unfold get
  rw [bucket_insert, if_pos rfl]
  by_cases hk : k = k' <;> simp [Bucket.read, hk]

/-- A bucket of a writable transaction is a faithful store for the keys that can be written. -/
theorem store_faithful (name : Bytes) :
    (Transaction.store name).Faithful Writable
      (fun tx m => tx.writable = true ∧ ∀ k, tx.get name k = m k) where
  get := by
    rintro k tx m - ⟨hw, hm⟩
    exact ⟨congrArg Except.ok (hm k), hw, hm⟩
  set := by
    rintro k v tx m hk ⟨hw, hm⟩
    show (tx.set name k v).1 = .ok () ∧ (tx.set name k v).2.writable = true ∧
      ∀ k', (tx.set name k v).2.get name k' = m.put k v k'
    rw [set_ok hw hk]
    refine ⟨rfl, hw, fun k' => ?_⟩
    rw [get_set]
    by_cases h : k = k'
    · subst h; simp
    · rw [if_neg (fun hc => h hc.2), Memory.put_other _ _ (Ne.symm h), hm]
  delete := by
    rintro k tx m - ⟨hw, hm⟩
    show (tx.delete name k).1 = .ok () ∧ (tx.delete name k).2.writable = true ∧
      ∀ k', (tx.delete name k).2.get name k' = m.put k none k'
    rw [delete, if_neg (by simp [hw])]
    refine ⟨rfl, hw, fun k' => ?_⟩
    rw [get_erase]
    by_cases h : k = k'
    · subst h; simp
    · rw [if_neg h, Memory.put_other _ _ (Ne.symm h), hm]

/-- Reading a bucket is reading its contents, also in a transaction that cannot write. -/
theorem run_reading (name : Bytes) (p : Reading α) (tx : Transaction) :
    p.run (Transaction.store name).toSource tx =
      ((p.run Memory.store.toSource fun k => tx.get name k).1, tx) := by
  induction p with
  | done o => rfl
  | get k next ih => exact ih _

end Transaction

namespace Host

/-! ## Contents of the database -/

/-- What the keys of the contracts read as in a database. -/
def contents (db : Database) : Memory := fun k => Transaction.get stateBucket k { writable := false, buckets := db.buckets }

/-- The height kept in a database. -/
def keptHeight (db : Database) : UInt64 := readHeight { writable := false, buckets := db.buckets }

/-- Values that are there stay as they are when a transaction is committed. -/
theorem get_committed {tx tx' : Transaction} (htx : tx'.buckets = tx.buckets.mapValues Bucket.committed)
    {name k v : Bytes} (h : tx.get name k = some v) : tx'.get name k = some v := by
  unfold Transaction.get Transaction.bucket Bucket.read at h ⊢
  rw [htx, Table.get?_mapValues]
  cases hb : tx.buckets.get? name with
  | none => rw [hb] at h; cases h
  | some b =>
    rw [hb] at h
    simp only [Option.getD_some, Option.map_some, Bucket.committed] at h ⊢
    rw [Table.get?_mapValues]
    cases hv : b.get? k with
    | none => rw [hv] at h; cases h
    | some v' =>
      rw [hv] at h
      obtain rfl : v' = some v := h
      rfl

/-- The height is read back as it was written. -/
theorem readHeight_of_get {tx : Transaction} {n : UInt64}
    (h : tx.get hostBucket heightKey = some (Bytes.bigEndian 8 n.toNat)) : readHeight tx = n := by
  have hn : n.toNat < 256 ^ 8 := n.toNat_lt
  unfold readHeight
  simp only [h, Bytes.length_bigEndian, if_true, Bytes.ofBigEndian_bigEndian hn]
  exact UInt64.ofNat_toNat

theorem readHeight_congr {tx tx' : Transaction} (h : ∀ n, tx'.bucket n = tx.bucket n) :
    readHeight tx' = readHeight tx := by
  unfold readHeight Transaction.get
  rw [h]

/-! ## Calls of a host that works -/

/-- Nothing fails the host: its database is open and breaks down nowhere. -/
structure Works (h : Host) : Prop where
  sound : h.breakdown = none
  isOpen : h.database.isOpen = true

theorem openBucket_ok {h : Host} (hb : h.breakdown = none) {name : Bytes} (hn : name ≠ []) (fault : Breakdown)
    (c : Context) {tx : Transaction} (hw : tx.writable = true) :
    ∃ tx', h.openBucket name fault c tx = .ok tx' ∧ tx'.writable = true ∧ ∀ n, tx'.bucket n = tx.bucket n := by
  obtain ⟨tx', hc, hw', hbuckets⟩ := Transaction.createBucket_ok hw hn
  refine ⟨tx', ?_, hw', hbuckets⟩
  rw [openBucket, if_neg (by simp [hb]), hc]

theorem writeHeight_ok {h : Host} (hb : h.breakdown = none) (n : UInt64) {tx : Transaction}
    (hw : tx.writable = true) :
    ∃ tx', h.writeHeight n tx = .ok tx' ∧ tx'.get hostBucket heightKey = some (Bytes.bigEndian 8 n.toNat) ∧
      ∀ k, tx'.get stateBucket k = tx.get stateBucket k := by
  have hk : Transaction.Writable heightKey := ⟨by decide, by decide⟩
  refine ⟨_, by rw [writeHeight, if_neg (by simp [hb]), Transaction.set_ok hw hk], ?_, fun k => ?_⟩
  · rw [Transaction.get_set, if_pos ⟨rfl, rfl⟩]
  · rw [Transaction.get_set, if_neg (fun hc => absurd hc.1 (by decide))]

/-- The event of a call that is answered with a response. -/
def event (action : Action) (caller : Address) (name : Bytes) (height : UInt64) (res : Response) : Event :=
  { action, contract := name, sender := caller, height, response := res }

/-- The work of a call is an invocation on the contents, with the new height on success. -/
theorem work_memory {h : Host} (hb : h.breakdown = none) (action : Action) (caller : Address) (name : Bytes)
    (msg : Payload) {tx : Transaction} (hw : tx.writable = true) :
    let r := h.service.invoke Memory.store action name (h.env (readHeight tx + 1)) caller msg
      fun k => tx.get stateBucket k
    let w := h.work action caller name msg tx
    w.outcome = r.outcome.map (event action caller name (readHeight tx + 1)) ∧
      ∀ res, r.outcome = .ok res → (∀ k, w.tx.get stateBucket k = r.state k) ∧
        w.tx.get hostBucket heightKey = some (Bytes.bigEndian 8 (readHeight tx + 1).toNat) ∧
        w.tx.callbacks.contains committedMark = true := by
  obtain ⟨tx₁, h₁, hw₁, hb₁⟩ := openBucket_ok hb (show hostBucket ≠ [] by decide) .hostBucket .hostBucket hw
  obtain ⟨tx₂, h₂, hw₂, hb₂⟩ := openBucket_ok hb (show stateBucket ≠ [] by decide) .stateBucket .stateBucket hw₁
  have hbuckets : ∀ n, tx₂.bucket n = tx.bucket n := fun n => (hb₂ n).trans (hb₁ n)
  have hstorage : h.storage = Transaction.store stateBucket := by rw [storage, if_neg (by simp [hb])]
  obtain ⟨ho, -, -, hw₃, hstate⟩ := Service.invoke_alike (Transaction.store_faithful stateBucket)
    Transaction.writable_key h.service action name (h.env (readHeight tx + 1)) caller msg
    (show tx₂.writable = true ∧ ∀ k, tx₂.get stateBucket k = tx.get stateBucket k from
      ⟨hw₂, fun k => by unfold Transaction.get; rw [hbuckets]⟩)
  -- from here on only the two invocations count, which end alike
  simp only [work, h₁, h₂, readHeight_congr hbuckets, hstorage]
  generalize h.service.invoke (Transaction.store stateBucket) action name (h.env (readHeight tx + 1)) caller msg
    tx₂ = x at ho hw₃ hstate
  generalize h.service.invoke Memory.store action name (h.env (readHeight tx + 1)) caller msg
    (fun k => tx.get stateBucket k) = r at ho hstate
  rw [ho]
  cases r.outcome with
  | error e => exact ⟨rfl, fun _ hr => by cases hr⟩
  | abort a => exact ⟨rfl, fun _ hr => by cases hr⟩
  | ok res =>
    obtain ⟨tx₃, h₃, hheight, hget⟩ := writeHeight_ok hb (readHeight tx + 1) hw₃
    simp only [h₃]
    refine ⟨rfl, fun _ _ => ⟨fun k => (hget k).trans (hstate k), hheight, ?_⟩⟩
    simp [Transaction.onCommit]

theorem count_eq (h : Host) (e : Entry) (s : Option Status) : ∃ metrics, h.count e s = { h with metrics } := by
  cases s with
  | none => exact ⟨h.metrics, rfl⟩
  | some s => exact ⟨h.metrics.record e s, rfl⟩

/-- A call leaves the host as it is but for its database and its metrics. -/
theorem invoke_host (h : Host) (action : Action) (caller : Address) (name : Bytes) (msg : Payload) :
    ∃ database metrics, (h.invoke action caller name msg).host = { h with database, metrics } := by
  unfold invoke
  split
  · exact ⟨h.database, h.metrics, rfl⟩
  split
  · exact ⟨h.database, h.metrics, rfl⟩
  cases h.database.start true with
  | error e => exact ⟨h.database, h.metrics, rfl⟩
  | ok tx =>
    simp only
    obtain ⟨metrics, hm⟩ := h.count_eq action.entry (h.work action caller name msg tx).counted
    rcases h.database.finish (h.work action caller name msg tx).outcome (h.work action caller name msg tx).tx
      with ⟨_ | _ | _, callbacks, database⟩
    · refine ⟨database, metrics, ?_⟩
      simp only [hm]
      split <;> rfl
    · exact ⟨database, metrics, by simp only [hm]⟩
    · exact ⟨database, metrics, by simp only [hm]⟩

theorem invoke_service (h : Host) (action : Action) (caller : Address) (name : Bytes) (msg : Payload) :
    (h.invoke action caller name msg).host.service = h.service := by
  obtain ⟨database, metrics, hx⟩ := h.invoke_host action caller name msg
  rw [hx]

theorem Works.invoke {h : Host} (hh : h.Works) {action : Action} {caller : Address} {name : Bytes} {msg : Payload}
    (hopen : (h.invoke action caller name msg).host.database.isOpen = true) :
    (h.invoke action caller name msg).host.Works := by
  obtain ⟨database, metrics, hx⟩ := h.invoke_host action caller name msg
  refine ⟨?_, hopen⟩
  rw [hx]
  exact hh.sound

/-- A call of a host that works is an invocation on the contents of its database at the next height.
It succeeds when the invocation does, and then its writes are there with the new height; otherwise
the database is as before. -/
theorem invoke_memory {h : Host} (hh : h.Works) (action : Action) {caller : Address}
    (hc : caller.isEmpty = false) (name : Bytes) (msg : Payload) :
    let height := keptHeight h.database + 1
    let r := h.service.invoke Memory.store action name (h.env height) caller msg (contents h.database)
    let x := h.invoke action caller name msg
    x.outcome = r.outcome.map (event action caller name height) ∧
      match r.outcome with
      | .ok _ => keptHeight x.host.database = height ∧ x.host.database.isOpen = true ∧
          ∀ k v, r.state k = some v → contents x.host.database k = some v
      | _ => x.host.database = h.database := by
  have hstart : h.database.start true = .ok { writable := true, buckets := h.database.buckets } := by
    rw [Database.start, if_pos hh.isOpen]
  obtain ⟨ho, hdone⟩ := work_memory hh.sound action caller name msg
    (show Transaction.writable { writable := true, buckets := h.database.buckets } = true from rfl)
  simp only [invoke, hc, hh.sound, hstart, Bool.false_eq_true, if_false, reduceCtorEq]
  -- what the fresh transaction reads is by definition what the database holds
  change _ = (h.service.invoke Memory.store action name (h.env (keptHeight h.database + 1)) caller msg
    (contents h.database)).outcome.map (event action caller name (keptHeight h.database + 1)) at ho
  change ∀ res, (h.service.invoke Memory.store action name (h.env (keptHeight h.database + 1)) caller msg
    (contents h.database)).outcome = _ → _ ∧ _ = some (Bytes.bigEndian 8 (keptHeight h.database + 1).toNat) ∧ _
    at hdone
  generalize h.work action caller name msg { writable := true, buckets := h.database.buckets } = w at ho hdone
  rw [ho]
  cases hr : (h.service.invoke Memory.store action name (h.env (keptHeight h.database + 1)) caller msg
    (contents h.database)).outcome with
  | error e => exact ⟨rfl, rfl⟩
  | abort a => exact ⟨rfl, rfl⟩
  | ok res =>
    obtain ⟨hget, hheight, hmark⟩ := hdone res hr
    simp only [Database.finish, Outcome.map, hmark, Bool.true_and]
    refine ⟨rfl, readHeight_of_get (get_committed rfl hheight), hh.isOpen, fun k v hv => ?_⟩
    exact get_committed rfl ((hget k).trans hv)

theorem invoke_no_caller (h : Host) (action : Action) {caller : Address} (hc : caller.isEmpty = true) (name : Bytes)
    (msg : Payload) :
    h.invoke action caller name msg = { outcome := .error (.fault .callerMissing), host := h } := by
  rw [invoke, if_pos hc]

/-! ## Reading a host that works -/

theorem view_works {h : Host} (hh : h.Works) (body : Transaction → Outcome α) :
    h.view body = body { writable := false, buckets := h.database.buckets } := by
  rw [view, if_neg (by simp [hh.sound]), Database.view, Database.start, if_pos hh.isOpen]

theorem height_works {h : Host} (hh : h.Works) : h.height = .ok (keptHeight h.database) := by
  rw [height, view_works hh]
  rfl

theorem contractInfo_works {h : Host} (hh : h.Works) (name : Bytes) :
    h.contractInfo name =
      (Version.get.run (Memory.store.scoped name).toSource (contents h.database)).1 := by
  rw [contractInfo, view_works hh, Transaction.run_reading, Reading.run_scoped]
  rfl

/-- A query leaves the host as it is but for its metrics. -/
theorem query_host (h : Host) (name : Bytes) (msg : Payload) :
    ∃ metrics, (h.query name msg).host = { h with metrics } := by
  unfold query
  split
  · exact ⟨h.metrics, rfl⟩
  cases h.database.start false with
  | error e => exact ⟨h.metrics, rfl⟩
  | ok tx => exact h.count_eq .query _

/-- A query of a host that works is answered from the contents of its database. -/
theorem query_works {h : Host} (hh : h.Works) (name : Bytes) (msg : Payload) :
    (h.query name msg).outcome =
      match h.service.find? name with
      | none => .error (.fault (.unknownContract name))
      | some c => ((c.query (h.env (keptHeight h.database)) msg).run (Memory.store.scoped name).toSource
          (contents h.database)).1 := by
  have hstart : h.database.start false = .ok { writable := false, buckets := h.database.buckets } := by
    rw [Database.start, if_pos hh.isOpen]
  simp only [query, hh.sound, hstart, reduceCtorEq, if_false, Service.query]
  cases h.service.find? name with
  | none => rfl
  | some c =>
    simp only [Service.report_outcome]
    rw [Transaction.run_reading, Reading.run_scoped]
    rfl

end Host

end CounterLedger
