/-
The counter as a small machine. Its state is the record of the counter, once there is one, and the
height. A host on which the counter is registered, however its calls fail, answers like the machine:
transactions, markers, overlays, hashed keys and stored records cannot be told from it.
-/
import CounterLedger.Proofs.Counter.Decoding
import CounterLedger.Proofs.Counter.Record
import CounterLedger.Proofs.Host.Run

namespace CounterLedger

/-- The reply with a bare error. -/
def Host.Reply.bare : Host.Reply → Host.Reply
  | .response o => .response (o.mapError Error.bare)
  | .answer o => .answer (o.mapError Error.bare)
  | .height o => .height (o.mapError Error.bare)
  | .info o => .info (o.mapError Error.bare)

namespace Counter

/-! ## The machine -/

/-- The record of the counter, once there is one, and the number of committed calls. -/
structure Machine where
  record : Option State := none
  height : UInt64 := 0

namespace Machine

/-- The version record that the counter leaves. -/
def version : Version := { contract := contractName, version := contractVersion }

/-- The response to a first instantiation. -/
def created (caller : Address) (n : UInt64) : Response :=
  { attributes := [(utf8 "method", utf8 "instantiate"), (utf8 "owner", caller.bytes),
      (utf8 "count", Numeral.decimal n.toNat)] }

/-- The response that only names the transition. -/
def done (method : Bytes) : Response := { attributes := [(utf8 "method", method)] }

/-- The first instantiation: the caller owns the counter, under the repaired address. -/
def create (caller : Address) (msg : Payload) : Except Fault (Response × State) :=
  match InstantiateMsg.decode (messageBytes msg) with
  | .error _ => .error (.kind .invalidInput)
  | .ok m => .ok (created caller m.counter, { owner := ⟨Utf8.repair caller.bytes⟩, counter := m.counter })

/-- A transition of a counter that exists. -/
def advance (caller : Address) (msg : Payload) (s : State) : Except Fault (Response × State) :=
  match ExecuteMsg.decode (messageBytes msg) with
  | .error _ => .error (.kind .invalidInput)
  | .ok .increment =>
    if s.counter.toNat = 2 ^ 64 - 1 then .error (.kind .overflow)
    else .ok (done (utf8 "increment"), { s with counter := s.counter + 1 })
  | .ok (.reset none) => .error (.kind .invalidInput)
  | .ok (.reset (some v)) =>
    if caller = s.owner then .ok (done (utf8 "reset"), { s with counter := v })
    else .error (.kind .unauthorized)

/-- A call of the counter. What exists is not created again, and what does not exist takes no
transition; the message is not looked at in either case. -/
def next (action : Action) (caller : Address) (msg : Payload) (record : Option State) :
    Except Fault (Response × State) :=
  match action, record with
  | .instantiate, none => create caller msg
  | .instantiate, some _ => .error (.alreadyInstantiated contractName)
  | .execute, none => .error (.notInstantiated contractName)
  | .execute, some s => advance caller msg s

/-- The text with which a count is answered. -/
def countText (n : UInt64) : Bytes := utf8 "\x7b\"count\":" ++ Numeral.decimal n.toNat ++ utf8 "\x7d"

/-- The answer to a query. -/
def answer (msg : Payload) (record : Option State) : Except Fault Payload :=
  match QueryMsg.decode (messageBytes msg), record with
  | .error _, _ => .error (.kind .invalidInput)
  | .ok .getCount, none => .error (.kind .stateNotFound)
  | .ok .getCount, some s => .ok (some (countText s.counter))

/-- The version record of the contract. -/
def info : Option State → Except Fault Version
  | none => .error (.kind .versionNotFound)
  | some _ => .ok version

/-- The outcome of a result. -/
def outcome {α : Type} : Except Fault α → Outcome α
  | .ok a => .ok a
  | .error f => .error (.fault f)

/-- Serves a request. Only a call that succeeds changes the machine, and raises the height by one. -/
def serve (r : Host.Request) (mc : Machine) : Host.Reply × Machine :=
  match r with
  | .call action caller name msg =>
    if caller.isEmpty then (.response (.error (.fault .callerMissing)), mc)
    else if name ≠ contractName then (.response (.error (.fault (.unknownContract name))), mc)
    else match next action caller msg mc.record with
      | .error f => (.response (.error (.fault f)), mc)
      | .ok (res, s) => (.response (.ok res), { record := some s, height := mc.height + 1 })
  | .query name msg =>
    if name ≠ contractName then (.answer (.error (.fault (.unknownContract name))), mc)
    else (.answer (outcome (answer msg mc.record)), mc)
  | .height => (.height (.ok mc.height), mc)
  | .info _ => (.info (outcome (info mc.record)), mc)

end Machine

theorem encodeCount_eq (n : UInt64) : encodeCount n = Machine.countText n := by
  have hname : Json.renderString (utf8 "count") = utf8 "\"count\"" := by decide
  have hhead : utf8 "\x7b\"count\":" = 0x7b :: (utf8 "\"count\"" ++ [0x3a]) := by decide
  have htail : utf8 "\x7d" = [0x7d] := by decide
  rw [Machine.countText, hhead, htail]
  simp [encodeCount, Json.render, Json.renderMembers, Json.ofWord, hname]

/-! ## The counter on a memory -/

/-- The storage key of the record. -/
def stateKey : Bytes := Namespace.key contractName State.storageKey

/-- The storage key of the version record. -/
def versionKey : Bytes := Namespace.key contractName Version.storageKey

/-- The storage key of the marker. -/
def marker : Bytes := Service.markerKey contractName

/-- The three digests are computed once. -/
theorem keys_apart : stateKey ≠ marker ∧ versionKey ≠ marker ∧ stateKey ≠ versionKey := by decide +kernel

theorem stateKey_ne_marker : stateKey ≠ marker := keys_apart.1

theorem versionKey_ne_marker : versionKey ≠ marker := keys_apart.2.1

theorem stateKey_ne_versionKey : stateKey ≠ versionKey := keys_apart.2.2

/-- The memory holds a counter: its record, the version and the marker. The owner is stable under
being stored. -/
structure Held (m : Memory) (s : State) : Prop where
  stored : ∃ data, m stateKey = some data ∧ State.decode data = .ok s
  stable : s.restored = s
  version : m versionKey = some Machine.version.encode
  marked : ∃ v, m marker = some v

/-- The storage keys of the counter. -/
def Own (k : Bytes) : Prop := k = stateKey ∨ k = versionKey ∨ k = marker

/-- A counter is held by every memory that keeps the values of its keys. -/
theorem Held.mono {m m' : Memory} {s : State} (h : Held m s)
    (hm : ∀ k, Own k → ∀ v, m k = some v → m' k = some v) : Held m' s := by
  obtain ⟨data, hdata, hs⟩ := h.stored
  obtain ⟨v, hv⟩ := h.marked
  exact ⟨⟨data, hm _ (.inl rfl) _ hdata, hs⟩, h.stable, hm _ (.inr (.inl rfl)) _ h.version, v,
    hm _ (.inr (.inr rfl)) _ hv⟩

/-- The memory holds the counter if there is one, and otherwise nothing of it. -/
def Holds (m : Memory) : Option State → Prop
  | none => m stateKey = none ∧ m versionKey = none ∧ m marker = none
  | some s => Held m s

/-- The memory as the counter sees it. -/
abbrev scope : Store Memory := Memory.store.scoped contractName

theorem run_read (k : Bytes) (c : Context) {α : Type} (f : Payload → Reading α) (m : Memory) :
    ((Reading.read k).within c >>= f).run scope.toSource m =
      (f (m (Namespace.key contractName k))).run scope.toSource m := rfl

theorem load_none {m : Memory} (h : m stateKey = none) :
    State.load.run scope.toSource m = (.error (.ofKind .stateNotFound), m) := by
  unfold State.load
  rw [run_read, show m (Namespace.key contractName State.storageKey) = none from h]
  rfl

theorem load_some {m : Memory} {s : State} (h : Held m s) : State.load.run scope.toSource m = (.ok s, m) := by
  obtain ⟨data, hdata, hs⟩ := h.stored
  unfold State.load
  rw [run_read, show m (Namespace.key contractName State.storageKey) = some data from hdata]
  simp only [hs]
  rfl

/-- The memory after a record is saved. -/
def saved (m : Memory) (s : State) : Memory := m.put stateKey (some s.encode)

theorem run_update {m : Memory} {s : State} (h : Held m s) (change : State → Except Error State) :
    (State.update change).run scope m =
      match change s with
      | .ok s' => { outcome := .ok s', state := saved m s' }
      | .error e => { outcome := .error e, state := m } := by
  unfold State.update
  show Program.run _ (State.load.toProgram >>= _) m = _
  rw [Program.run_bind, Reading.run_toProgram, load_some h]
  simp only [Program.Ran.andThen, List.nil_append]
  cases change s <;> rfl

theorem run_instantiate {caller : Address} (hc : caller.isEmpty = false) (msg : InstantiateMsg) (m : Memory) :
    ∃ logs, (instantiate caller msg).run scope m =
      { outcome := .ok (Machine.created caller msg.counter)
        state := saved (m.put versionKey (some Machine.version.encode)) ⟨caller, msg.counter⟩
        logs } := by
  unfold instantiate
  rw [hc]
  exact ⟨_, rfl⟩

/-! ## Calls on a memory -/

theorem held_encoded {m : Memory} {s : State} (hs : m stateKey = some s.encode)
    (hv : m versionKey = some Machine.version.encode) (hm : ∃ v, m marker = some v) : Held m s.restored where
  stored := ⟨s.encode, hs, State.decode_encode s⟩
  stable := by simp [State.restored]
  version := hv
  marked := hm

/-- A record with the same owner takes the place of the one that is held. -/
theorem Held.saved {m : Memory} {s : State} (h : Held m s) (n : UInt64) :
    Held (saved m { s with counter := n }) { s with counter := n } := by
  -- the record is read back with the repaired owner, and the owner is repaired already
  have howner : (⟨Utf8.repair s.owner.bytes⟩ : Address) = s.owner := congrArg State.owner h.stable
  have hstable : State.restored { s with counter := n } = { s with counter := n } := by
    simp only [State.restored]
    rw [howner]
  have hv : Counter.saved m { s with counter := n } versionKey = some Machine.version.encode := by
    rw [Counter.saved, Memory.put_other _ _ stateKey_ne_versionKey.symm, h.version]
  have hm : ∃ v, Counter.saved m { s with counter := n } marker = some v := by
    rw [Counter.saved, Memory.put_other _ _ stateKey_ne_marker.symm]
    exact h.marked
  have hheld := held_encoded (Memory.put_same m stateKey _) hv hm
  rwa [hstable] at hheld

/-- The memory after a first instantiation holds the counter. -/
theorem held_created (m : Memory) (s : State) :
    Held ((saved (m.put versionKey (some Machine.version.encode)) s).put marker (some [1])) s.restored := by
  refine held_encoded ?_ ?_ ⟨_, Memory.put_same _ _ _⟩
  · rw [Memory.put_other _ _ stateKey_ne_marker, saved, Memory.put_same]
  · rw [Memory.put_other _ _ versionKey_ne_marker, saved, Memory.put_other _ _ stateKey_ne_versionKey.symm,
      Memory.put_same]

/-- A transition changes the record and logs the change. -/
theorem run_transition {m : Memory} {s : State} (h : Held m s) (change : State → Except Error State)
    (entry : State → Log.Entry) (res : Response) (c : Context) :
    ∃ logs, (Program.within c do
        let s' ← State.update change
        Program.note (entry s')
        pure res).run scope m =
      match change s with
      | .ok s' => { outcome := .ok res, state := saved m s', logs }
      | .error e => { outcome := .error (.within c e), state := m, logs } := by
  rw [Program.run_within, Program.run_bind, run_update h]
  cases change s with
  | ok s' => exact ⟨_, rfl⟩
  | error e => exact ⟨_, rfl⟩

/-- How a call ended, and the memory after it, agree with a result of the machine. -/
def Agrees (o : Outcome Response) (m : Memory) : Except Fault (Response × State) → Prop
  | .error f => ∃ e, o = .error e ∧ e.bare = .fault f
  | .ok (res, s) => o = .ok res ∧ Held m s

/-- A transition on the memory of a counter goes as the machine says. -/
theorem run_advance {m : Memory} {s : State} (h : Held m s) (env : Env) (caller : Address) (msg : Payload) :
    let r := (contract.execute env caller msg).run scope m
    Agrees r.outcome r.state (Machine.advance caller msg s) := by
  have hstrict := strict_executeMsg (messageBytes msg)
  intro r
  have hr : r = (Program.ofExcept (ExecuteMsg.decode (messageBytes msg)) >>= fun x =>
    execute caller (.direct x)).run scope m := rfl
  unfold Machine.advance
  cases hd : ExecuteMsg.decode (messageBytes msg) with
  | error e =>
    rw [hr, hd]
    exact ⟨e, rfl, hstrict e hd⟩
  | ok x =>
    replace hr : r = (execute caller (.direct x)).run scope m := by rw [hr, hd]; rfl
    cases x with
    | increment =>
      obtain ⟨logs, hrun⟩ := run_transition h State.incremented (fun s' =>
        { logEntry .debug (utf8 "incremented to " ++ Numeral.decimal s'.counter.toNat) with
          sender := some caller.bytes }) (methodResponse (utf8 "increment")) .increment
      replace hr := hr.trans hrun
      have hlt := s.counter.toNat_lt
      have hsize : UInt64.size = 2 ^ 64 := rfl
      by_cases hmax : s.counter.toNat = 2 ^ 64 - 1
      · have hchange : s.incremented = .error (.ofKind .overflow) := by
          rw [State.incremented, if_neg (by omega)]
        rw [if_pos hmax, hr, hchange]
        exact ⟨_, rfl, rfl⟩
      · have hchange : s.incremented = .ok { s with counter := s.counter + 1 } := by
          rw [State.incremented, if_pos (by omega)]
        rw [if_neg hmax, hr, hchange]
        exact ⟨rfl, h.saved _⟩
    | reset value =>
      cases value with
      | none =>
        rw [hr]
        exact ⟨_, rfl, rfl⟩
      | some v =>
        obtain ⟨logs, hrun⟩ := run_transition h (State.resetBy caller v) (fun _ =>
          { logEntry .info (utf8 "reset to " ++ Numeral.decimal v.toNat) with
            sender := some caller.bytes }) (methodResponse (utf8 "reset")) .reset
        replace hr := hr.trans hrun
        simp only
        by_cases howner : caller = s.owner
        · have hchange : s.resetBy caller v = .ok { s with counter := v } := by
            rw [State.resetBy, if_pos (by simp [Address.equal, howner])]
          rw [if_pos howner, hr, hchange]
          exact ⟨rfl, h.saved _⟩
        · have hchange : s.resetBy caller v = .error (.within (.notOwner caller.bytes) (.ofKind .unauthorized)) := by
            rw [State.resetBy, if_neg (by simp [Address.equal, howner])]
          rw [if_neg howner, hr, hchange]
          exact ⟨_, rfl, rfl⟩

/-- A first instantiation goes as the machine says. -/
theorem run_create {caller : Address} (hc : caller.isEmpty = false) (env : Env) (msg : Payload) (m : Memory) :
    let r := (contract.instantiate env caller msg).run scope m
    Agrees r.outcome (r.state.put marker (some [1])) (Machine.create caller msg) := by
  have hstrict := strict_instantiateMsg (messageBytes msg)
  intro r
  have hr : r = (Program.ofExcept (InstantiateMsg.decode (messageBytes msg)) >>= fun x =>
    instantiate caller x).run scope m := rfl
  unfold Machine.create
  cases hd : InstantiateMsg.decode (messageBytes msg) with
  | error e =>
    rw [hr, hd]
    exact ⟨e, rfl, hstrict e hd⟩
  | ok x =>
    obtain ⟨logs, hrun⟩ := run_instantiate hc x m
    replace hr : r = (instantiate caller x).run scope m := by rw [hr, hd]; rfl
    rw [hr, hrun]
    exact ⟨rfl, held_created m ⟨caller, x.counter⟩⟩

/-- On a memory without the marker an instantiation goes as the machine says. -/
theorem invoke_create {sv : Service} (hsv : sv.find? contractName = some contract) {m : Memory}
    (hmark : m marker = none) (env : Env) {caller : Address} (hc : caller.isEmpty = false) (msg : Payload) :
    let r := sv.invoke Memory.store .instantiate contractName env caller msg m
    Agrees r.outcome r.state (Machine.create caller msg) := by
  have hrun := run_create hc env msg m
  rw [Service.invoke_memory hsv, Service.body_memory, show m (Service.markerKey contractName) = none from hmark]
  simp only [Service.report_outcome, Service.report_state, Program.run_scoped, Option.isSome_none]
  generalize (contract.instantiate env caller msg).run scope m = r at hrun
  generalize Machine.create caller msg = x at hrun
  obtain f | ⟨res, s⟩ := x
  · obtain ⟨e, he, hbare⟩ := hrun
    simp only [Service.marked, he]
    exact ⟨e, rfl, hbare⟩
  · obtain ⟨ho, hs⟩ := hrun
    simp only [Service.marked, ho]
    exact ⟨rfl, hs⟩

/-- A marked contract is not instantiated again. -/
theorem invoke_marked {sv : Service} (hsv : sv.find? contractName = some contract) {m : Memory} {v : Bytes}
    (hmark : m marker = some v) (env : Env) (caller : Address) (msg : Payload) :
    (sv.invoke Memory.store .instantiate contractName env caller msg m).outcome =
      .error (.fault (.alreadyInstantiated contractName)) := by
  rw [Service.invoke_memory hsv, Service.body_memory, show m (Service.markerKey contractName) = some v from hmark]
  rfl

/-- On a memory that holds the counter a transition goes as the machine says. -/
theorem invoke_advance {sv : Service} (hsv : sv.find? contractName = some contract) {m : Memory} {s : State}
    (hm : Held m s) (env : Env) (caller : Address) (msg : Payload) :
    let r := sv.invoke Memory.store .execute contractName env caller msg m
    Agrees r.outcome r.state (Machine.advance caller msg s) := by
  obtain ⟨v, hmark⟩ := hm.marked
  have hrun := run_advance hm env caller msg
  rw [Service.invoke_memory hsv, Service.body_memory, show m (Service.markerKey contractName) = some v from hmark]
  simp only [Service.report_outcome, Service.report_state, Program.run_scoped, Option.isSome_some]
  generalize (contract.execute env caller msg).run scope m = r at hrun
  generalize Machine.advance caller msg s = x at hrun
  obtain f | ⟨res, s'⟩ := x
  · exact hrun
  · obtain ⟨ho, hs⟩ := hrun
    simp only [Program.Ran.kept, ho]
    exact ⟨rfl, hs⟩

/-- A call of the counter on a memory that holds it goes as the machine says. -/
theorem invoke_next {sv : Service} (hsv : sv.find? contractName = some contract) {m : Memory}
    {record : Option State} (hm : Holds m record) (action : Action) (env : Env) {caller : Address}
    (hc : caller.isEmpty = false) (msg : Payload) :
    let r := sv.invoke Memory.store action contractName env caller msg m
    Agrees r.outcome r.state (Machine.next action caller msg record) := by
  cases record with
  | none =>
    obtain ⟨-, -, hmark⟩ := hm
    cases action with
    | instantiate => exact invoke_create hsv hmark env hc msg
    | execute =>
      rw [Service.invoke_memory hsv, Service.body_memory, show m (Service.markerKey contractName) = none from hmark]
      exact ⟨_, rfl, rfl⟩
  | some s =>
    cases action with
    | instantiate =>
      obtain ⟨v, hmark⟩ := Held.marked hm
      exact ⟨_, invoke_marked hsv hmark env caller msg, rfl⟩
    | execute => exact invoke_advance hsv hm env caller msg

end Counter

end CounterLedger
