/-
Storage back-ends are interchangeable. A service whose contracts write no absent values gives the
same replies, and leaves the same values, on a snapshot in memory, on a plain store without faults,
on a bucket within one transaction, and on a bucket that each call opens in a transaction of its
own. All of them hold the contents of one memory; only the last needs the assumption on the
values, because a transaction turns the absent values that it commits into empty ones.
-/
import CounterLedger.Contract.Sample
import CounterLedger.Proofs.Host.Storage
import CounterLedger.Proofs.Service.Run
import CounterLedger.Proofs.Store.Edits

namespace CounterLedger

variable {α β σ : Type}

/-! ## Programs that write no absent value -/

/-- The program writes no absent value, as long as the store does what it asks. -/
def Program.WritesValues : Program α → Prop
  | .done _ => True
  | .get _ next => ∀ v, (next (.ok v)).WritesValues
  | .set _ v next => v ≠ none ∧ (next (.ok ())).WritesValues
  | .delete _ next => (next (.ok ())).WritesValues
  | .log _ next => next.WritesValues

theorem Reading.writesValues (p : Reading α) : p.toProgram.WritesValues := by
  induction p with
  | done o => trivial
  | get k next ih => exact fun v => ih _

theorem Program.writesValues_bind {p : Program α} {f : α → Program β} (hp : p.WritesValues)
    (hf : ∀ a, (f a).WritesValues) : (p >>= f).WritesValues := by
  show (p.bind f).WritesValues
  induction p with
  | done o =>
    cases o with
    | ok a => exact hf a
    | error e => trivial
    | abort r => trivial
  | get k next ih => exact fun v => ih _ (hp v)
  | set k v next ih => exact ⟨hp.1, ih _ hp.2⟩
  | delete k next ih => exact ih _ hp
  | log e next ih => exact ih hp

theorem Program.WritesValues.within {p : Program α} (h : p.WritesValues) (c : Context) :
    (p.within c).WritesValues := by
  induction p with
  | done o => trivial
  | get k next ih => exact fun v => ih _ (h v)
  | set k v next ih => exact ⟨h.1, ih _ h.2⟩
  | delete k next ih => exact ih _ h
  | log e next ih => exact ih h

theorem Program.WritesValues.scoped {p : Program α} (h : p.WritesValues) (space : Bytes) :
    (p.scoped space).WritesValues := by
  induction p with
  | done o => trivial
  | get k next ih => exact fun v => ih _ (h v)
  | set k v next ih => exact ⟨h.1, ih _ h.2⟩
  | delete k next ih => exact ih _ h
  | log e next ih => exact ih h

theorem Program.writesValues_write {v : Payload} (h : v ≠ none) (k : Bytes) : (Program.write k v).WritesValues :=
  ⟨h, trivial⟩

/-- The contract never writes an absent value. -/
def Contract.WritesValues (c : Contract) : Prop :=
  ∀ action env sender msg, (c.program action env sender msg).WritesValues

/-- No registered contract ever writes an absent value. -/
def Service.WritesValues (sv : Service) : Prop := ∀ name c, sv.find? name = some c → c.WritesValues

theorem Service.body_writesValues {c : Contract} (hc : c.WritesValues) (action : Action) (name : Bytes) (env : Env)
    (sender : Address) (msg : Payload) : (body c action name env sender msg).WritesValues := by
  refine Program.writesValues_bind (Reading.writesValues _) fun found => ?_
  cases action with
  | instantiate =>
    cases found with
    | true => trivial
    | false =>
      refine Program.writesValues_bind ((hc .instantiate env sender msg).scoped name) fun res => ?_
      exact Program.writesValues_bind ((Program.writesValues_write (by simp) _).within _) fun _ => trivial
  | execute =>
    cases found with
    | true => exact (hc .execute env sender msg).scoped name
    | false => trivial

/-! ## What such a program leaves in an overlay and in a store -/

/-- None of the changes writes an absent value. -/
def Change.AllValues (l : List (Bytes × Change)) : Prop := ∀ e ∈ l, e.2 ≠ .value none

theorem Change.AllValues.insert {t : Table Change} (h : AllValues t.entries) (k : Bytes) {c : Change}
    (hc : c ≠ .value none) : AllValues (t.insert k c).entries := by
  intro e he
  rcases Table.mem_insertEntry he with rfl | he
  · exact hc
  · exact h e he

/-- A program on an overlay of a store that is read without fail leaves the store as it is. -/
theorem Program.WritesValues.run {below : Source σ} (hget : ∀ k st, ∃ v, below.get k st = (.ok v, st))
    {p : Program α} (hp : p.WritesValues) {o : Overlay σ} (ho : Change.AllValues o.changes.entries) :
    (p.run (Overlay.store below) o).state.base = o.base ∧
      Change.AllValues (p.run (Overlay.store below) o).state.changes.entries := by
  induction p generalizing o with
  | done out => exact ⟨rfl, ho⟩
  | get k next ih =>
    have hread : ∃ v, (Overlay.store below).get k o = (.ok v, o) := by
      show ∃ v, o.get below k = (.ok v, o)
      cases hc : o.changes.get? k with
      | some c => exact ⟨c.read, o.get_changed below hc⟩
      | none =>
        obtain ⟨v, hv⟩ := hget k o.base
        exact ⟨v, by rw [o.get_unchanged below hc, hv]; rfl⟩
    obtain ⟨v, hv⟩ := hread
    simp only [Program.run, hv]
    exact ih _ (hp v) ho
  | set k v next ih => exact ih _ hp.2 (ho.insert k (by simpa using hp.1))
  | delete k next ih => exact ih _ hp (ho.insert k (by simp))
  | log e next ih => exact ih hp ho

/-- What every change keeps that writes no absent value is kept by applying such changes. -/
theorem Store.apply_keeps {s : Store σ} {I : σ → Prop}
    (hstep : ∀ k c st, c ≠ Change.value none → I st → I (s.change k c st).2) {l : List (Bytes × Change)}
    (hl : Change.AllValues l) {st : σ} (h : I st) : I (s.apply l st).2 := by
  induction l generalizing st with
  | nil => exact h
  | cons e rest ih =>
    obtain ⟨k, c⟩ := e
    have hnext := hstep k c st (hl (k, c) List.mem_cons_self) h
    rw [Store.apply_cons]
    cases (s.change k c st).1 with
    | ok u => exact ih (fun e he => hl e (List.mem_cons_of_mem _ he)) hnext
    | error e => exact hnext

/-- An invocation keeps of a store what every change keeps that writes no absent value. -/
theorem Service.invoke_keeps {sv : Service} (hsv : sv.WritesValues) {s : Store σ}
    (hget : ∀ k st, ∃ v, s.get k st = (.ok v, st)) {I : σ → Prop}
    (hstep : ∀ k c st, c ≠ Change.value none → I st → I (s.change k c st).2) (action : Action) (name : Bytes)
    (env : Env) (sender : Address) (msg : Payload) {st : σ} (h : I st) :
    I (sv.invoke s action name env sender msg st).state := by
  simp only [invoke_eq]
  cases hc : sv.find? name with
  | none => exact h
  | some c =>
    obtain ⟨hbase, hvalues⟩ := (body_writesValues (hsv name c hc) action name env sender msg).run hget
      (o := { base := st }) (fun _ he => absurd he List.not_mem_nil)
    simp only [report_state]
    generalize (body c action name env sender msg).run (Overlay.store s.toSource) { base := st } = ran
      at hbase hvalues
    have hunder : I ran.state.base := by rw [hbase]; exact h
    cases ran.outcome with
    | error e => exact hunder
    | abort r => exact hunder
    | ok res =>
      have hkept := Store.apply_keeps hstep hvalues hunder
      rw [Store.settle_ok]
      cases (s.apply ran.state.changes.entries ran.state.base).1 with
      | ok u => exact hkept
      | error e => exact hkept

namespace Transaction

/-! ## Transactions that are committed -/

/-- Every key of the bucket has a value. -/
def AllValues (name : Bytes) (tx : Transaction) : Prop := ∀ k, (tx.bucket name).get? k ≠ some none

theorem AllValues.change {name : Bytes} {tx : Transaction} (h : tx.AllValues name) (k : Bytes) {c : Change}
    (hc : c ≠ .value none) : ((Transaction.store name).change k c tx).2.AllValues name := by
  cases c with
  | value v =>
    show (tx.set name k v).2.AllValues name
    unfold set Bucket.write
    split_ifs with hw hk hlong
    · exact h
    · exact h
    · exact h
    · intro k'
      simp only [bucket_insert, if_true, Table.get?_insert]
      split
      · simpa using hc
      · exact h k'
  | deleted =>
    show (tx.delete name k).2.AllValues name
    unfold delete
    split_ifs with hw
    · exact h
    · intro k'
      simp only [bucket_insert, if_true, Table.get?_erase]
      split
      · simp
      · exact h k'

/-- What is committed reads as in the transaction, when every key has a value. -/
theorem AllValues.committed {name : Bytes} {tx tx' : Transaction} (h : tx.AllValues name)
    (htx : tx'.buckets = tx.buckets.mapValues Bucket.committed) :
    tx'.AllValues name ∧ ∀ k, tx'.get name k = tx.get name k := by
  have hbucket : ∀ k, (tx'.bucket name).get? k = (tx.bucket name).get? k := by
    intro k
    have hk := h k
    unfold bucket at hk ⊢
    rw [htx, Table.get?_mapValues]
    cases hb : tx.buckets.get? name with
    | none => rfl
    | some b =>
      rw [hb] at hk
      simp only [Option.map_some, Option.getD_some, Bucket.committed, Table.get?_mapValues] at hk ⊢
      cases hv : b.get? k with
      | none => rfl
      | some v =>
        cases v with
        | none => exact absurd hv hk
        | some v => rfl
  refine ⟨fun k => (hbucket k).symm ▸ h k, fun k => ?_⟩
  unfold get Bucket.read
  rw [hbucket]

end Transaction

namespace Service

/-! ## A transaction for each call -/

/-- How a transaction ends in which a call had this outcome. One in which the call failed may be
committed all the same; one that is cut off never is. -/
def transactionEnd (always : Bool) : Outcome α → Outcome Unit
  | .ok _ => .ok ()
  | .error e => if always then .ok () else .error e
  | .abort r => .abort r

/-- Serves a call on a bucket in a transaction of its own: a query in one that only reads, in which
the bucket may be missing. -/
def serveApart (sv : Service) (bucket : Bytes) (always : Bool) (call : Call) (db : Database) : Exchange × Database :=
  match call with
  | .invoke action name env sender msg =>
    match db.start true with
    | .error e => (⟨call, .response (.error e)⟩, db)
    | .ok tx =>
      match tx.createBucket bucket with
      | (.error e, _) => (⟨call, .response (.error e)⟩, db)
      | (.ok (), tx₁) =>
        let r := sv.invoke (Transaction.store bucket) action name env sender msg tx₁
        (⟨call, .response r.outcome⟩, (db.finish (transactionEnd always r.outcome) r.state).2.2)
  | .query name env msg =>
    match db.start false with
    | .error e => (⟨call, .answer (.error e)⟩, db)
    | .ok tx => (⟨call, .answer (sv.query (Transaction.store bucket).toSource name env msg tx).outcome⟩, db)

end Service

namespace Database

/-- The transaction in which a database is read. -/
def reader (db : Database) : Transaction := { writable := false, buckets := db.buckets }

/-- The bucket of an open database has these contents, and every key of it has a value. -/
structure Holds (db : Database) (bucket : Bytes) (m : Memory) : Prop where
  isOpen : db.isOpen = true
  values : db.reader.AllValues bucket
  get : ∀ k, db.reader.get bucket k = m k

/-- After a transaction is committed the database reads as the transaction did. -/
theorem Holds.finish {db : Database} {bucket : Bytes} {m n : Memory} (h : db.Holds bucket m) (a : α) {tx : Transaction}
    (hv : tx.AllValues bucket) (hget : ∀ k, tx.get bucket k = n k) : (db.finish (.ok a) tx).2.2.Holds bucket n := by
  have hbuckets : (db.finish (.ok a) tx).2.2.reader.buckets = tx.buckets.mapValues Bucket.committed := rfl
  obtain ⟨hvalues, hread⟩ := hv.committed hbuckets
  exact ⟨h.isOpen, hvalues, fun k => (hread k).trans (hget k)⟩

end Database

namespace Service

/-- An invocation on a memory that does not succeed leaves the memory as it is. -/
theorem invoke_memory_failed (sv : Service) (action : Action) (name : Bytes) (env : Env) (sender : Address)
    (msg : Payload) (m : Memory)
    (hf : ∀ res, (sv.invoke Memory.store action name env sender msg m).outcome ≠ .ok res) :
    (sv.invoke Memory.store action name env sender msg m).state = m := by
  cases hc : sv.find? name with
  | none => rw [invoke_unknown hc]
  | some c =>
    rw [invoke_memory hc] at hf ⊢
    simp only [report_outcome, report_state, Program.Ran.kept] at hf ⊢
    cases ho : ((body c action name env sender msg).run Memory.store m).outcome with
    | ok res => exact absurd ho (hf res)
    | error e => rfl
    | abort r => rfl

/-- A call served in a transaction of its own is answered as on the contents of the bucket, and the
contents change as those of a memory do. -/
theorem serveApart_holds {sv : Service} (hsv : sv.WritesValues) {bucket : Bytes} (hb : bucket ≠ []) (always : Bool)
    (call : Call) {db : Database} {m : Memory} (h : db.Holds bucket m) :
    (sv.serveApart bucket always call db).1 = (sv.serve Memory.store call m).1 ∧
      (sv.serveApart bucket always call db).2.Holds bucket (sv.serve Memory.store call m).2 := by
  cases call with
  | query name env msg =>
    have hstart : db.start false = .ok db.reader := by rw [Database.start, if_pos h.isOpen]; rfl
    have hm : (fun k => db.reader.get bucket k) = m := funext h.get
    simp only [serveApart, hstart, serve, query]
    cases sv.find? name with
    | none => exact ⟨rfl, h⟩
    | some c =>
      simp only [report_outcome, report_state, Transaction.run_reading, hm, Reading.run_memory_state]
      exact ⟨trivial, h⟩
  | invoke action name env sender msg =>
    have hstart : db.start true = .ok { writable := true, buckets := db.buckets } := by
      rw [Database.start, if_pos h.isOpen]
    obtain ⟨tx₁, hcreate, hw, hbuckets⟩ := Transaction.createBucket_ok
      (show Transaction.writable { writable := true, buckets := db.buckets } = true from rfl) hb
    have hvalues : tx₁.AllValues bucket := by
      intro k
      rw [hbuckets]
      exact h.values k
    obtain ⟨ho, -, -, -, hget⟩ := invoke_alike (Transaction.store_faithful bucket) Transaction.writable_key sv action
      name env sender msg (show tx₁.writable = true ∧ ∀ k, tx₁.get bucket k = m k from
        ⟨hw, fun k => by unfold Transaction.get; rw [hbuckets]; exact h.get k⟩)
    have hkept := invoke_keeps hsv (s := Transaction.store bucket) (I := Transaction.AllValues bucket)
      (fun k tx => ⟨tx.get bucket k, rfl⟩) (fun k c tx hc htx => htx.change k hc) action name env sender msg hvalues
    have hfailed := sv.invoke_memory_failed action name env sender msg m
    simp only [serveApart, hstart, hcreate, serve]
    generalize sv.invoke (Transaction.store bucket) action name env sender msg tx₁ = x at ho hget hkept
    generalize sv.invoke Memory.store action name env sender msg m = y at ho hget hfailed
    rw [ho]
    refine ⟨rfl, ?_⟩
    cases hy : y.outcome with
    | ok res => exact h.finish () hkept hget
    | abort r => exact hfailed (by simp [hy]) ▸ h
    | error e =>
      cases always with
      | true => exact h.finish () hkept hget
      | false => exact hfailed (by simp [hy]) ▸ h

end Service

/-! ## The four of them -/

/-- Four kinds of storage for a service, each in some state. -/
structure BackEnds where
  /-- A snapshot in memory. -/
  snapshot : Snapshot
  plain : PlainStore
  /-- A bucket within one transaction. -/
  within : Transaction
  /-- A bucket that each call opens in a transaction of its own. -/
  apart : Database

/-- Every key reads the same from all four, and none of them fails. -/
structure BackEnds.Hold (b : BackEnds) (bucket : Bytes) (m : Memory) : Prop where
  snapshot : ∀ k, (Snapshot.store.get k b.snapshot).1 = .ok (m k)
  plain : ∀ k, (PlainStore.store.get k b.plain).1 = .ok (m k)
  sound : b.plain.faults = {}
  within : ∀ k, b.within.get bucket k = m k
  writable : b.within.writable = true
  apart : b.apart.Holds bucket m

/-- Serves a run of calls on each of the four: the replies, and the states afterwards. -/
def BackEnds.serve (sv : Service) (bucket : Bytes) (always : Bool) (calls : List Service.Call) (b : BackEnds) :
    List (List Service.Exchange) × BackEnds :=
  let snapshot := transcript (sv.serve Snapshot.store) calls b.snapshot
  let plain := transcript (sv.serve PlainStore.store) calls b.plain
  let within := transcript (sv.serve (Transaction.store bucket)) calls b.within
  let apart := transcript (sv.serveApart bucket always) calls b.apart
  ([snapshot.1, plain.1, within.1, apart.1], ⟨snapshot.2, plain.2, within.2, apart.2⟩)

/-- Storage back-ends are interchangeable. On four back-ends from which every key reads the same, a
run of calls to contracts that write no absent value gets the same replies, and afterwards every key
reads the same from all four. A transaction of its own may be committed or not when the call in it
fails, and the bucket need not be there when it is first opened. -/
theorem back_ends_agree {sv : Service} (hsv : sv.WritesValues) {bucket : Bytes} (hb : bucket ≠ []) (always : Bool)
    (calls : List Service.Call) {b : BackEnds} {m : Memory} (h : b.Hold bucket m) :
    ∃ replies n, (b.serve sv bucket always calls).1 = [replies, replies, replies, replies] ∧
      (b.serve sv bucket always calls).2.Hold bucket n := by
  have hsnapshot : Snapshot.contents b.snapshot = m := by
    funext k
    have hread : (Snapshot.store.get k b.snapshot).1 = .ok (Snapshot.contents b.snapshot k) :=
      (Snapshot.store_faithful.get trivial rfl).1
    rw [h.snapshot k] at hread
    exact (Except.ok.inj hread).symm
  have hplain : b.plain.contents = m := by
    funext k
    have hread := h.plain k
    rw [show (PlainStore.store.get k b.plain).1 = _ from congrArg Prod.fst (PlainStore.get_sound h.sound k)] at hread
    exact Except.ok.inj hread
  -- each of the four is compared with the memory that it holds
  obtain ⟨h₁, -, hR₁⟩ := Service.run_alike Snapshot.store_faithful (fun _ _ => trivial) sv calls hsnapshot
  obtain ⟨h₂, -, hR₂⟩ := Service.run_alike PlainStore.store_faithful (fun _ _ => trivial) sv calls ⟨h.sound, hplain⟩
  obtain ⟨h₃, -, hR₃⟩ := Service.run_alike (Transaction.store_faithful bucket) Transaction.writable_key sv calls
    ⟨h.writable, h.within⟩
  obtain ⟨h₄, hR₄⟩ := transcript_related (Q := Eq) (R := fun db m => Database.Holds db bucket m)
    (fun call (_ : call ∈ calls) db m hm => Service.serveApart_holds hsv hb always call hm) h.apart
  rw [List.forall₂_eq_eq_eq] at h₄
  refine ⟨(transcript (sv.serve Memory.store) calls m).1, (transcript (sv.serve Memory.store) calls m).2, ?_, ?_⟩
  · simp only [BackEnds.serve, h₁, h₂, h₃, h₄]
  · exact ⟨fun k => (Snapshot.store_faithful.get trivial hR₁).1, fun k => (PlainStore.store_faithful.get trivial hR₂).1,
      hR₂.1, hR₃.2, hR₃.1, hR₄⟩

/-! ## Scripts on all four -/

theorem Sample.runLines_writesValues (found : List (Bytes × Bytes)) (lines : List Bytes) :
    (runLines found lines).WritesValues := by
  induction lines generalizing found with
  | nil => trivial
  | cons line lines ih =>
    unfold runLines
    cases Line.parse line with
    | set key value => exact Program.writesValues_bind (Program.writesValues_write (by simp) key) fun _ => ih found
    | delete key => exact ih found
    | get key => exact fun v => ih _
    | fail => trivial
    | abort => trivial
    | other => exact ih found

theorem Sample.script_writesValues : script.WritesValues := by
  intro action env sender msg
  cases action <;> exact runLines_writesValues [] _

/-- A service with a contract that runs scripts. -/
def scripts : Service := { contracts := Table.empty.insert [0x61] (some Sample.script) }

/-- Four empty back-ends; the bucket of the last is missing. -/
def emptyBackEnds : BackEnds := ⟨Snapshot.new, {}, { writable := true, buckets := Table.empty }, {}⟩

/-- A query before anything is there, a call that writes under the empty key, one that fails after it
has deleted this key, and one that is cut off. -/
def scriptCalls : List Service.Call :=
  [.query [0x61] ⟨[], 0, 0⟩ none, .invoke .instantiate [0x61] ⟨[], 1, 0⟩ ⟨[0x78]⟩ (some (utf8 "set  1\nset b 2")),
    .invoke .execute [0x61] ⟨[], 2, 0⟩ ⟨[0x78]⟩ (some (utf8 "del \nfail")),
    .invoke .execute [0x61] ⟨[], 2, 0⟩ ⟨[0x78]⟩ (some (utf8 "del b\npanic")), .query [0x61] ⟨[], 1, 0⟩ (some [])]

theorem back_ends_agree_scripts :
    scripts.WritesValues ∧ emptyBackEnds.Hold [0x73] Memory.empty ∧
      ∃ replies n, (emptyBackEnds.serve scripts [0x73] true scriptCalls).1 = [replies, replies, replies, replies] ∧
        (emptyBackEnds.serve scripts [0x73] true scriptCalls).2.Hold [0x73] n := by
  have hvalues : scripts.WritesValues := by
    intro name c hc
    simp only [scripts, Service.find?, Table.get?_insert] at hc
    split at hc
    · cases hc
      exact Sample.script_writesValues
    · cases hc
  have hempty : emptyBackEnds.Hold [0x73] Memory.empty :=
    ⟨fun _ => rfl, fun _ => rfl, rfl, fun _ => rfl, rfl, ⟨rfl, fun k => by simp [emptyBackEnds, Database.reader,
      Transaction.bucket], fun _ => rfl⟩⟩
  exact ⟨hvalues, hempty, back_ends_agree hvalues (by decide) true scriptCalls hempty⟩

end CounterLedger
