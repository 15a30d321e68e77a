/-
A transition of the counter on a store of which nothing is known but that a refused operation changes
nothing: any bytes may stand under the key of the record, and any read or write may be refused. The
verdict on a transition is given by checks in a fixed order, and the first that fails is the error.
What an accepted transition leaves can be read back as it was meant, whatever the record was written
like before. A failed transition leaves everything as it was, with the exception of the creation,
which writes the version before the record.
-/
import CounterLedger.Proofs.Counter.Machine
import CounterLedger.Proofs.Store.Edits

namespace CounterLedger

/-! ## Causes -/

/-- The error is the cause, or the cause in contexts that keep its kind. -/
inductive Error.Wraps (cause : Error) : Error → Prop where
  | self : Wraps cause cause
  | within {c : Context} {e : Error} : Wraps cause e → Wraps cause (.within c e)

theorem Error.Wraps.kind_eq {cause e : Error} (h : cause.Wraps e) : e.kind = cause.kind := by
  induction h with
  | self => rfl
  | within _ ih => exact ih

/-- The outcome is the result, or an error with the same cause. -/
def Outcome.Follows {α : Type} (o : Outcome α) : Except Error α → Prop
  | .ok a => o = .ok a
  | .error cause => ∃ e, o = .error e ∧ cause.Wraps e

theorem Outcome.follows_ofExcept {α : Type} (r : Except Error α) : (Outcome.ofExcept r).Follows r := by
  cases r with
  | ok a => rfl
  | error e => exact ⟨e, rfl, .self⟩

theorem Outcome.Follows.within {α : Type} {o : Outcome α} {r : Except Error α} (h : o.Follows r) (c : Context) :
    (o.mapError (.within c)).Follows r := by
  cases r with
  | ok a =>
    obtain rfl : o = .ok a := h
    rfl
  | error cause =>
    obtain ⟨e, rfl, he⟩ := h
    exact ⟨.within c e, rfl, .within he⟩

theorem Outcome.exists_error {α : Type} {o : Outcome α}
    (h : (match o with | .error _ => true | _ => false) = true) : ∃ e, o = .error e := by
  cases o with
  | error e => exact ⟨e, rfl⟩
  | ok a => cases h
  | abort r => cases h

theorem bind_eq_ok {ε α β : Type} {r : Except ε α} {f : α → Except ε β} {b : β} (h : r >>= f = .ok b) :
    ∃ a, r = .ok a ∧ f a = .ok b := by
  cases r with
  | error e => cases h
  | ok a => exact ⟨a, rfl, h⟩

namespace Counter

variable {σ : Type}

/-! ## The verdict on a transition -/

/-- The record that a stored value stands for. -/
def State.stored : Payload → Except Error State
  | none => .error (.ofKind .stateNotFound)
  | some data =>
    match State.decode data with
    | .ok s => .ok s
    | .error why => .error (.fault (.undecodableState why))

/-- The record after a transition by the sender. -/
def State.after (sender : Address) : ExecuteMsg → State → Except Error State
  | .increment, s =>
    if s.counter.toNat = 2 ^ 64 - 1 then .error (.ofKind .overflow) else .ok { s with counter := s.counter + 1 }
  | .reset none, _ => .error (.ofKind .invalidInput)
  | .reset (some v), s =>
    if sender.bytes = s.owner.bytes then .ok { s with counter := v } else .error (.ofKind .unauthorized)

/-- Writes the next record, if there is one and the store takes it. -/
def replaced (s : Store σ) (next : Except Error State) (st : σ) : Except Error State := do
  let record ← next
  (s.set State.storageKey (some record.encode) st).1
  pure record

/-- Reads the record, changes it and writes it back, as far as that is possible. -/
def attempt (s : Store σ) (change : State → Except Error State) (st : σ) : Except Error State := do
  let record ← (s.get State.storageKey st).1 >>= State.stored
  replaced s (change record) (s.get State.storageKey st).2

/-- The record that a transition leaves, or the first check that it fails. -/
def verdict (s : Store σ) (sender : Address) (m : Given ExecuteMsg) (st : σ) : Except Error State :=
  match m with
  | .reference _ => .error (.ofKind .shouldNotEnter)
  | .missing => .error (.ofKind .shouldNotEnter)
  | .direct (.reset none) => .error (.ofKind .invalidInput)
  | .direct m => attempt s (State.after sender m) st

theorem incremented_follows (sender : Address) (record : State) :
    (Outcome.ofExcept record.incremented).Follows (State.after sender .increment record) := by
  have hlt := record.counter.toNat_lt
  have hsize : UInt64.size = 2 ^ 64 := rfl
  rw [State.incremented, State.after]
  by_cases hmax : record.counter.toNat = 2 ^ 64 - 1
  · rw [if_neg (by omega), if_pos hmax]
    exact ⟨_, rfl, .self⟩
  · rw [if_pos (by omega), if_neg hmax]
    rfl

theorem resetBy_follows (sender : Address) (value : UInt64) (record : State) :
    (Outcome.ofExcept (record.resetBy sender value)).Follows (State.after sender (.reset (some value)) record) := by
  have hequal : sender.equal (.address record.owner) = true ↔ sender.bytes = record.owner.bytes := by
    obtain ⟨b⟩ := sender
    obtain ⟨⟨b'⟩, n⟩ := record
    simp [Address.equal]
  rw [State.resetBy, State.after]
  by_cases howner : sender.bytes = record.owner.bytes
  · rw [if_pos (hequal.2 howner), if_pos howner]
    rfl
  · rw [if_neg fun h => howner (hequal.1 h), if_neg howner]
    exact ⟨_, rfl, .within .self⟩

theorem State.after_owner {sender : Address} {m : ExecuteMsg} {record next : State}
    (h : State.after sender m record = .ok next) : next.owner = record.owner := by
  cases m with
  | increment =>
    rw [State.after] at h
    split_ifs at h
    cases h
    rfl
  | reset value =>
    cases value with
    | none => cases h
    | some v =>
      rw [State.after] at h
      split_ifs at h
      cases h
      rfl

theorem State.stored_restored {value : Payload} {record : State} (h : State.stored value = .ok record) :
    record.restored = record := by
  unfold State.stored at h
  split at h
  · cases h
  · split at h
    · rename_i s hs
      cases h
      exact State.decode_restored hs
    · cases h

/-- A record that follows one that was stored is read back as it is. -/
theorem State.stored_after {value : Payload} {sender : Address} {m : ExecuteMsg} {record next : State}
    (hrecord : State.stored value = .ok record) (h : State.after sender m record = .ok next) :
    State.stored (some next.encode) = .ok next := by
  have howner := (restored_eq_self_iff record).1 (State.stored_restored hrecord)
  rw [← State.after_owner h, ← restored_eq_self_iff] at howner
  rw [State.stored, State.decode_encode, howner]

/-! ## Runs on a store that may fail -/

section Fallible

variable {α : Type} {s : Store σ} {contents : σ → Memory}

/-- What a verdict leaves: the new record, or everything as it was. -/
def leaves (m : Memory) : Except Error State → Memory
  | .ok next => m.put State.storageKey (some next.encode)
  | .error _ => m

/-- A run settles a verdict: it ends like the verdict, with a result made of the record, and leaves
what the verdict leaves. -/
structure Settles (contents : σ → Memory) (st : σ) (r : Program.Ran α σ) (v : Except Error State)
    (result : State → α) : Prop where
  outcome : r.outcome.Follows (v.map result)
  left : contents r.state = leaves (contents st) v

theorem Settles.unchanged {st : σ} {r : Program.Ran α σ} {v : Except Error State} {result : State → α}
    (h : Settles contents st r v result) {e : Error} (he : r.outcome = .error e) : contents r.state = contents st := by
  have houtcome := h.outcome
  rw [he] at houtcome
  cases v with
  | ok next => cases houtcome
  | error cause => exact h.left

theorem Settles.within {st : σ} {p : Program α} {v : Except Error State} {result : State → α}
    (h : Settles contents st (p.run s st) v result) (c : Context) :
    Settles contents st ((p.within c).run s st) v result := by
  rw [Program.run_within]
  exact ⟨h.outcome.within c, h.left⟩

/-- Loading reads the value of the record, and ends like the record that the value stands for. -/
theorem run_load (s : Source σ) (st : σ) :
    (State.load.run s st).1.Follows ((s.get State.storageKey st).1 >>= State.stored) ∧
      (State.load.run s st).2 = (s.get State.storageKey st).2 := by
  have hrun : State.load.run s st =
      ((Reading.done ((Outcome.ofExcept (s.get State.storageKey st).1).mapError (.within .readState))).bind fun value =>
        match value with
        | none => .fail (.ofKind .stateNotFound)
        | some data =>
          match State.decode data with
          | .ok record => Reading.done (.ok record)
          | .error why => .fail (.fault (.undecodableState why))).run s (s.get State.storageKey st).2 := rfl
  rw [hrun]
  cases (s.get State.storageKey st).1 with
  | error e => exact ⟨⟨_, rfl, .within .self⟩, rfl⟩
  | ok value =>
    cases value with
    | none => exact ⟨⟨_, rfl, .self⟩, rfl⟩
    | some data =>
      show Outcome.Follows _ (State.stored (some data)) ∧ _
      rw [State.stored]
      simp only [Outcome.ofExcept, Outcome.mapError, Reading.bind]
      cases State.decode data with
      | ok record => exact ⟨rfl, rfl⟩
      | error why => exact ⟨⟨_, rfl, .self⟩, rfl⟩

/-- A program that makes one write, and ends like it. -/
structure Writes (s : Store σ) (p : Program Unit) (k : Bytes) (v : Payload) : Prop where
  outcome : ∀ st, (p.run s st).outcome.Follows (s.set k v st).1
  state : ∀ st, (p.run s st).state = (s.set k v st).2

theorem writes_save (s : Store σ) (record : State) :
    Writes s (State.save record) State.storageKey (some record.encode) :=
  ⟨fun _ => (Outcome.follows_ofExcept _).within .writeState, fun _ => rfl⟩

/-- If the write is refused, what follows it is not run, and nothing changes. -/
theorem Writes.refused (hs : s.Fallible contents) {p : Program Unit} {k : Bytes} {v : Payload} (hp : Writes s p k v)
    {st : σ} {cause : Error} (h : (s.set k v st).1 = .error cause) (f : Unit → Program α) :
    (∃ e, ((p >>= f).run s st).outcome = .error e ∧ cause.Wraps e) ∧
      contents ((p >>= f).run s st).state = contents st := by
  have hwrite := hp.outcome st
  rw [h] at hwrite
  obtain ⟨e, he, hwraps⟩ := hwrite
  obtain ⟨houtcome, hstate⟩ := Program.run_bind_of_error (f := f) he
  refine ⟨⟨e, houtcome, hwraps⟩, ?_⟩
  rw [hstate, hp.state, hs.set_error h]

/-- If the write is accepted, what follows it runs on the new contents. -/
theorem Writes.accepted (hs : s.Fallible contents) {p : Program Unit} {k : Bytes} {v : Payload} (hp : Writes s p k v)
    {st : σ} (h : (s.set k v st).1 = .ok ()) (f : Unit → Program α) :
    let rest := (f ()).run s (s.set k v st).2
    ((p >>= f).run s st).outcome = rest.outcome ∧ ((p >>= f).run s st).state = rest.state ∧
      contents (s.set k v st).2 = (contents st).put k v := by
  have hwrite := hp.outcome st
  rw [h] at hwrite
  obtain ⟨houtcome, hstate⟩ := Program.run_bind_of_ok (f := f) hwrite
  rw [hp.state] at houtcome hstate
  exact ⟨houtcome, hstate, hs.set_ok h⟩

theorem settles_replaced (hs : s.Fallible contents) {o : Outcome State} {next : Except Error State}
    (h : o.Follows next) (st : σ) :
    Settles contents st
      ((Program.done o >>= fun record => State.save record >>= fun _ => Program.done (.ok record)).run s st)
      (replaced s next st) id := by
  cases next with
  | error cause =>
    obtain ⟨e, rfl, hwraps⟩ := h
    exact ⟨⟨e, rfl, hwraps⟩, rfl⟩
  | ok record =>
    obtain rfl : o = .ok record := h
    have hreplaced : replaced s (.ok record) st =
        (s.set State.storageKey (some record.encode) st).1 >>= fun _ => .ok record := rfl
    show Settles contents st ((State.save record >>= fun _ => Program.done (.ok record)).run s st) _ id
    rw [hreplaced]
    cases hset : (s.set State.storageKey (some record.encode) st).1 with
    | error cause =>
      obtain ⟨hfailed, hkept⟩ := (writes_save s record).refused hs hset fun _ => Program.done (.ok record)
      exact ⟨hfailed, hkept⟩
    | ok u =>
      obtain ⟨houtcome, hstate, hput⟩ := (writes_save s record).accepted hs hset fun _ => Program.done (.ok record)
      exact ⟨houtcome, (congrArg contents hstate).trans hput⟩

/-- An update settles the attempt at its change. -/
theorem settles_update (hs : s.Fallible contents) {change after : State → Except Error State}
    (hchange : ∀ record, (Outcome.ofExcept (change record)).Follows (after record)) (st : σ) :
    Settles contents st ((State.update change).run s st) (attempt s after st) id := by
  have hread := hs.read State.storageKey st
  obtain ⟨hload, hstate⟩ := run_load s.toSource st
  have hrun : (State.update change).run s st =
      (State.load.toProgram.run s st).andThen s fun record =>
        Program.done (.ofExcept (change record)) >>= fun next => State.save next >>= fun _ => Program.done (.ok next) :=
    Program.run_bind s _ _ st
  rw [hrun, Reading.run_toProgram, hstate]
  unfold attempt
  generalize (s.get State.storageKey st).2 = st' at hread ⊢
  generalize (State.load.run s.toSource st).1 = loaded at hload
  cases hrecord : (s.get State.storageKey st).1 >>= State.stored with
  | error cause =>
    rw [hrecord] at hload
    obtain ⟨e, rfl, hwraps⟩ := hload
    exact ⟨⟨e, rfl, hwraps⟩, hread⟩
  | ok record =>
    rw [hrecord] at hload
    obtain rfl : loaded = .ok record := hload
    obtain ⟨houtcome, hleft⟩ := settles_replaced hs (hchange record) st'
    rw [hread] at hleft
    exact ⟨houtcome, hleft⟩

/-- A transition settles its change, whatever it notes and answers. -/
theorem settles_transition (hs : s.Fallible contents) {change after : State → Except Error State}
    (hchange : ∀ record, (Outcome.ofExcept (change record)).Follows (after record)) (entry : State → Log.Entry)
    (res : Response) (st : σ) :
    Settles contents st ((State.update change >>= fun next => Program.note (entry next) >>= fun _ =>
      Program.done (.ok res)).run s st) (attempt s after st) fun _ => res := by
  obtain ⟨houtcome, hleft⟩ := settles_update hs hchange st
  rw [Program.run_bind]
  generalize (State.update change).run s st = r at houtcome hleft ⊢
  cases hattempt : attempt s after st with
  | error cause =>
    rw [hattempt] at houtcome hleft
    obtain ⟨e, he, hwraps⟩ := houtcome
    rw [Program.Ran.andThen, he]
    exact ⟨⟨e, rfl, hwraps⟩, hleft⟩
  | ok next =>
    rw [hattempt] at houtcome hleft
    have hok : r.outcome = .ok next := houtcome
    rw [Program.Ran.andThen, hok]
    exact ⟨rfl, hleft⟩

def answered : Given ExecuteMsg → Response
  | .direct .increment => methodResponse (utf8 "increment")
  | _ => methodResponse (utf8 "reset")

/-- The handler settles the verdict on the message. -/
theorem settles_execute (hs : s.Fallible contents) (sender : Address) (m : Given ExecuteMsg) (st : σ) :
    Settles contents st ((execute sender m).run s st) (verdict s sender m st) fun _ => answered m := by
  cases m with
  | reference m => exact ⟨⟨_, rfl, .within .self⟩, rfl⟩
  | missing => exact ⟨⟨_, rfl, .within .self⟩, rfl⟩
  | direct m =>
    cases m with
    | increment => exact (settles_transition hs (incremented_follows sender) _ _ st).within .increment
    | reset value =>
      cases value with
      | none => exact ⟨⟨_, rfl, .within (.within .self)⟩, rfl⟩
      | some value => exact (settles_transition hs (resetBy_follows sender value) _ _ st).within .reset

/-- A record that an attempt leaves follows the record that the store holds. -/
theorem attempt_eq_ok (hs : s.Fallible contents) {sender : Address} {m : ExecuteMsg} {st : σ} {next : State}
    (h : attempt s (State.after sender m) st = .ok next) :
    ∃ record, State.stored (contents st State.storageKey) = .ok record ∧ State.after sender m record = .ok next := by
  obtain ⟨record, hloaded, hreplaced⟩ := bind_eq_ok h
  obtain ⟨value, hread, hrecord⟩ := bind_eq_ok hloaded
  obtain ⟨next', hafter, hset⟩ := bind_eq_ok hreplaced
  obtain ⟨⟨⟩, -, hnext⟩ := bind_eq_ok hset
  cases hnext
  rw [hs.answer _ _ _ hread] at hrecord
  exact ⟨record, hrecord, hafter⟩

/-- The verdict on a message accepts only a message that is given directly. -/
theorem verdict_eq_ok {sender : Address} {m : Given ExecuteMsg} {st : σ} {next : State}
    (h : verdict s sender m st = .ok next) : ∃ x, m = .direct x ∧ attempt s (State.after sender x) st = .ok next := by
  cases m with
  | reference x => cases h
  | missing => cases h
  | direct x =>
    refine ⟨x, rfl, ?_⟩
    cases x with
    | increment => exact h
    | reset value =>
      cases value with
      | none => cases h
      | some value => exact h

/-- The handler ends with the first check that a transition fails, and then nothing has changed; three
of the checks are made without the store. Otherwise it succeeds, no key but that of the record has
changed, and the record can be loaded as it follows from the one that was stored, whatever the bytes
that wrote it. -/
theorem transition_exact (hs : s.Fallible contents) (sender : Address) (m : Given ExecuteMsg) (st : σ) :
    let r := (execute sender m).run s st
    (∀ cause, verdict s sender m st = .error cause →
      (∃ e, r.outcome = .error e ∧ cause.Wraps e ∧ e.kind = cause.kind) ∧ contents r.state = contents st) ∧
    (∀ next, verdict s sender m st = .ok next →
      (∃ res, r.outcome = .ok res) ∧
      (∃ x record, m = .direct x ∧ State.stored (contents st State.storageKey) = .ok record ∧
        State.after sender x record = .ok next) ∧
      (∀ v, (s.get State.storageKey r.state).1 = .ok v → (State.load.run s.toSource r.state).1 = .ok next) ∧
      ∀ k, k ≠ State.storageKey → contents r.state k = contents st k) ∧
    (m = .missing ∨ (∃ x, m = .reference x) ∨ m = .direct (.reset none) →
      r.state = st ∧ (execute sender m).keysUsed s st = []) := by
  intro r
  obtain ⟨houtcome, hleft⟩ := settles_execute hs sender m st
  change r.outcome.Follows _ at houtcome
  change contents r.state = _ at hleft
  refine ⟨fun cause hcause => ?_, fun next hnext => ?_, ?_⟩
  · rw [hcause] at houtcome hleft
    obtain ⟨e, he, hwraps⟩ := houtcome
    exact ⟨⟨e, he, hwraps, hwraps.kind_eq⟩, hleft⟩
  · rw [hnext] at houtcome hleft
    obtain ⟨x, rfl, hattempt⟩ := verdict_eq_ok hnext
    obtain ⟨record, hrecord, hafter⟩ := attempt_eq_ok hs hattempt
    refine ⟨⟨_, houtcome⟩, ⟨x, record, rfl, hrecord, hafter⟩, fun v hv => ?_, fun k hk => ?_⟩
    · -- what is read is what was written, and the owner in it is repaired already
      obtain rfl := hs.answer _ _ _ hv
      have hloads := (run_load s.toSource r.state).1
      rw [hv, hleft] at hloads
      change Outcome.Follows _ (State.stored ((contents st).put State.storageKey (some next.encode) State.storageKey))
        at hloads
      rw [Memory.put_same, State.stored_after hrecord hafter] at hloads
      exact hloads
    · rw [hleft]
      exact Memory.put_other _ _ hk
  · rintro (rfl | ⟨x, rfl⟩ | rfl) <;> exact ⟨rfl, rfl⟩

end Fallible

/-- A store that can be written once more, with a record in another form than the contract writes. -/
def worn : PlainStore where
  values := Table.ofList
    [(State.storageKey, some (utf8 "\x7b\"Owner\":\"" ++ 0xff :: utf8 "\",\"counter\":7,\"other\":[]\x7d"))]
  faults := { writesLeft := some 1 }

theorem transition_exact_worn :
    let r := (execute ⟨[0xef, 0xbf, 0xbd]⟩ (.direct (.reset (some 9)))).run PlainStore.store worn
    (∃ res, r.outcome = .ok res) ∧
      (State.load.run PlainStore.store.toSource r.state).1 = .ok ⟨⟨[0xef, 0xbf, 0xbd]⟩, 9⟩ := by
  have hverdict : verdict PlainStore.store ⟨[0xef, 0xbf, 0xbd]⟩ (.direct (.reset (some 9))) worn =
      .ok ⟨⟨[0xef, 0xbf, 0xbd]⟩, 9⟩ := by decide +kernel
  obtain ⟨hok, -, hload, -⟩ := (transition_exact PlainStore.store_fallible _ _ worn).2.1 _ hverdict
  exact ⟨hok, hload _ rfl⟩

/-! ## Failed calls -/

/-- A run that fails has changed nothing. -/
def Whole {α : Type} (contents : σ → Memory) (st : σ) (r : Program.Ran α σ) : Prop :=
  ∀ e, r.outcome = .error e → contents r.state = contents st

/-- The store takes the version of a new counter, and then refuses the record. -/
def Torn (s : Store σ) (sender : Address) (m : InstantiateMsg) (st : σ) : Prop :=
  sender.isEmpty = false ∧ (s.set Version.storageKey (some Machine.version.encode) st).1 = .ok () ∧
    ∃ e, (s.set State.storageKey (some (State.encode ⟨sender, m.counter⟩))
      (s.set Version.storageKey (some Machine.version.encode) st).2).1 = .error e

section Fallible

variable {s : Store σ} {contents : σ → Memory}

theorem contract_instantiate_run (env : Env) (sender : Address) (msg : Payload) (s : Store σ) (st : σ) :
    (contract.instantiate env sender msg).run s st =
      match InstantiateMsg.decode (messageBytes msg) with
      | .error e => { outcome := .error e, state := st }
      | .ok m => (instantiate sender m).run s st := by
  show (Program.ofExcept (InstantiateMsg.decode (messageBytes msg)) >>= fun m => instantiate sender m).run s st = _
  cases InstantiateMsg.decode (messageBytes msg) <;> rfl

theorem contract_execute_run (env : Env) (sender : Address) (msg : Payload) (s : Store σ) (st : σ) :
    (contract.execute env sender msg).run s st =
      match ExecuteMsg.decode (messageBytes msg) with
      | .error e => { outcome := .error e, state := st }
      | .ok m => (execute sender (.direct m)).run s st := by
  show (Program.ofExcept (ExecuteMsg.decode (messageBytes msg)) >>= fun m =>
    execute sender (.direct m)).run s st = _
  cases ExecuteMsg.decode (messageBytes msg) <;> rfl

theorem writes_setVersion (s : Store σ) :
    Writes s ((Version.set Machine.version).within .setVersion) Version.storageKey (some Machine.version.encode) :=
  ⟨fun _ => ((Outcome.follows_ofExcept _).within .writeVersion).within .setVersion, fun _ => rfl⟩

/-- The creation is two writes, and an answer that cannot fail. -/
theorem instantiate_eq {sender : Address} (hsender : sender.isEmpty = false) (m : InstantiateMsg) :
    ∃ answer : Program Response, (∀ (s : Store σ) (st : σ), ∃ res, (answer.run s st).outcome = .ok res) ∧
      instantiate sender m = ((Version.set Machine.version).within .setVersion >>= fun _ =>
        State.save ⟨sender, m.counter⟩ >>= fun _ => answer) := by
  unfold instantiate
  rw [hsender]
  exact ⟨_, fun s st => ⟨_, rfl⟩, rfl⟩

/-- The snapshot that a contract runs in takes every write. -/
theorem not_torn_in_snapshot (space : Bytes) (below : Source σ) (sender : Address) (m : InstantiateMsg)
    (o : Overlay σ) : ¬ Torn ((Overlay.store below).scoped space) sender m o := by
  rintro ⟨-, -, e, he⟩
  cases he

/-- A creation that is torn fails and leaves the version; any other failed creation leaves nothing. -/
theorem instantiate_cases (hs : s.Fallible contents) (sender : Address) (m : InstantiateMsg) (st : σ) :
    let r := (instantiate sender m).run s st
    (Torn s sender m st ∧ (∃ e, r.outcome = .error e) ∧
      contents r.state = (contents st).put Version.storageKey (some Machine.version.encode)) ∨
      (¬ Torn s sender m st ∧ Whole contents st r) := by
  intro r
  have hr : r = (instantiate sender m).run s st := rfl
  unfold Torn
  cases hsender : sender.isEmpty with
  | true =>
    refine .inr ⟨fun htorn => (by cases htorn.1), fun e _ => ?_⟩
    rw [hr, instantiate, hsender]
    rfl
  | false =>
    obtain ⟨answer, hanswer, hprogram⟩ := instantiate_eq (σ := σ) hsender m
    rw [hprogram] at hr
    rw [hr]
    cases hversion : (s.set Version.storageKey (some Machine.version.encode) st).1 with
    | error e =>
      refine .inr ⟨fun htorn => (by cases htorn.2.1), fun _ _ => ?_⟩
      exact ((writes_setVersion s).refused hs hversion _).2
    | ok u =>
      obtain ⟨hfirst, hstate, hput⟩ := (writes_setVersion s).accepted hs hversion
        fun _ => State.save ⟨sender, m.counter⟩ >>= fun _ => answer
      rw [hfirst, hstate]
      cases hrecord : (s.set State.storageKey (some (State.encode ⟨sender, m.counter⟩))
          (s.set Version.storageKey (some Machine.version.encode) st).2).1 with
      | error e =>
        obtain ⟨⟨e', he', -⟩, hkept⟩ := (writes_save s ⟨sender, m.counter⟩).refused hs hrecord fun _ => answer
        exact .inl ⟨⟨rfl, rfl, e, rfl⟩, ⟨e', he'⟩, hkept.trans hput⟩
      | ok u' =>
        obtain ⟨hsecond, -, -⟩ := (writes_save s ⟨sender, m.counter⟩).accepted hs hrecord fun _ => answer
        obtain ⟨res, hres⟩ := hanswer s (s.set State.storageKey (some (State.encode ⟨sender, m.counter⟩))
          (s.set Version.storageKey (some Machine.version.encode) st).2).2
        refine .inr ⟨fun ⟨_, _, e, he⟩ => (by cases he), fun e he => ?_⟩
        rw [hfirst, hsecond, hres] at he
        cases he

theorem whole_instantiate_iff (hs : s.Fallible contents) (sender : Address) (m : InstantiateMsg) (st : σ) :
    Whole contents st ((instantiate sender m).run s st) ↔
      (Torn s sender m st → contents st Version.storageKey = some Machine.version.encode) := by
  rcases instantiate_cases hs sender m st with ⟨htorn, ⟨e, he⟩, hleft⟩ | ⟨hwhole, h⟩
  · constructor
    · intro h _
      rw [← h e he, hleft, Memory.put_same]
    · -- the version that is written may have been there before
      intro h e' _
      rw [hleft]
      funext k
      by_cases hk : k = Version.storageKey
      · rw [hk, Memory.put_same, h htorn]
      · exact Memory.put_other _ _ hk
  · exact ⟨fun _ htorn => absurd htorn hwhole, fun _ => h⟩

/-- A failed transition has changed nothing. A failed creation has changed nothing either, unless it
was torn, and then the version is all that it has left, as far as it was not there before. In the
snapshot that a service gives to a contract no creation is torn. -/
theorem failed_call_whole_iff_not_torn (hs : s.Fallible contents) (sender : Address) (st : σ) :
    (∀ m, Whole contents st ((execute sender m).run s st)) ∧
    (∀ env msg, Whole contents st ((contract.execute env sender msg).run s st)) ∧
    (∀ m, Whole contents st ((instantiate sender m).run s st) ↔
      (Torn s sender m st → contents st Version.storageKey = some Machine.version.encode)) ∧
    (∀ env msg, Whole contents st ((contract.instantiate env sender msg).run s st) ↔
      ∀ m, InstantiateMsg.decode (messageBytes msg) = .ok m → Torn s sender m st →
        contents st Version.storageKey = some Machine.version.encode) ∧
    (∀ m, Torn s sender m st → contents ((instantiate sender m).run s st).state =
      (contents st).put Version.storageKey (some Machine.version.encode)) ∧
    ∀ space below m (o : Overlay σ), ¬ Torn ((Overlay.store below).scoped space) sender m o := by
  have hexecute (m : Given ExecuteMsg) : Whole contents st ((execute sender m).run s st) := fun e he =>
    (settles_execute hs sender m st).unchanged he
  refine ⟨hexecute, fun env msg => ?_, fun m => whole_instantiate_iff hs sender m st, fun env msg => ?_,
    fun m htorn => ?_, fun space below => not_torn_in_snapshot space below sender⟩
  · rw [contract_execute_run]
    cases ExecuteMsg.decode (messageBytes msg) with
    | error e => exact fun _ _ => rfl
    | ok m => exact hexecute (.direct m)
  · rw [contract_instantiate_run]
    cases InstantiateMsg.decode (messageBytes msg) with
    | error e => exact ⟨fun _ m hm => (by cases hm), fun _ _ _ => rfl⟩
    | ok m =>
      rw [whole_instantiate_iff hs]
      constructor
      · intro h m' hm'
        cases hm'
        exact h
      · exact fun h => h m rfl
  · rcases instantiate_cases hs sender m st with ⟨-, -, hleft⟩ | ⟨hwhole, -⟩
    · exact hleft
    · exact absurd htorn hwhole

end Fallible

/-- An increment, and the creation of a counter. -/
def incrementText : Payload := some (utf8 "\x7b\"increment\":\x7b\x7d\x7d")

@[inherit_doc incrementText]
def createText : Payload := some (utf8 "\x7b\"counter\":5\x7d")

theorem failed_call_whole_iff_not_torn_full :
    let full : PlainStore := { worn with faults := { writesLeft := some 0 } }
    let r := (contract.execute ⟨[], 0, 0⟩ ⟨utf8 "alice"⟩ incrementText).run PlainStore.store full
    (∃ e, r.outcome = .error e) ∧ r.state.contents = full.contents := by
  intro full r
  obtain ⟨e, he⟩ : ∃ e, r.outcome = .error e := Outcome.exists_error (by decide +kernel)
  exact ⟨⟨e, he⟩, (failed_call_whole_iff_not_torn PlainStore.store_fallible _ _).2.1 _ _ e he⟩

/-- A creation on an empty store that takes one more write fails, and leaves the version behind. -/
theorem torn_creation_leaves_version :
    let narrow : PlainStore := { faults := { writesLeft := some 1 } }
    let r := (contract.instantiate ⟨[], 0, 0⟩ ⟨utf8 "alice"⟩ createText).run PlainStore.store narrow
    (∃ e, r.outcome = .error e) ∧ narrow.contents Version.storageKey = none ∧
      r.state.contents Version.storageKey = some Machine.version.encode :=
  ⟨Outcome.exists_error (by decide +kernel), rfl, by decide +kernel⟩

end Counter

end CounterLedger
