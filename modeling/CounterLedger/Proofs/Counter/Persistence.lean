/-
Records persist. A record is kept under one key, in a text of its own. In a store that answers by its
contents a record that was saved is loaded again with its texts repaired, so it is loaded as it was
saved exactly when they are valid; and a record that was loaded once, from whatever text, survives
being saved. The state of the counter, the version record and a bare address all keep to this, and no
record touches the key of the other.
-/
import CounterLedger.Proofs.Counter.Record
import CounterLedger.Proofs.Store.Edits
import CounterLedger.Proofs.Text.Repair

namespace CounterLedger

variable {ρ σ : Type}

/-! ## Kinds of records -/

/-- How a kind of record is kept: under which key, in which text, and what is said when it cannot be had. -/
structure Kept (ρ : Type) where
  key : Bytes
  encode : ρ → Bytes
  decode : Bytes → Except Json.ReadError ρ
  reading : Context
  writing : Context
  missing : Kind
  undecodable : Json.ReadError → Fault

namespace Kept

/-- The record that a value stands for. -/
def stored (K : Kept ρ) : Payload → Outcome ρ
  | none => .error (.ofKind K.missing)
  | some data =>
    match K.decode data with
    | .ok r => .ok r
    | .error e => .error (.fault (K.undecodable e))

/-- Writes a record. -/
def save (K : Kept ρ) (r : ρ) : Program Unit := (Program.write K.key (some (K.encode r))).within K.writing

/-- Reads the record. -/
def load (K : Kept ρ) : Reading ρ := (Reading.read K.key).within K.reading >>= fun value => .done (K.stored value)

/-- The text of a record writes the record as `fix` gives it, and what can be read is fixed already. -/
structure Fixes (K : Kept ρ) (fix : ρ → ρ) : Prop where
  decode_encode : ∀ r, K.decode (K.encode r) = .ok (fix r)
  decoded : ∀ {data r}, K.decode data = .ok r → fix r = r

theorem uses_save (K : Kept ρ) {keys : Bytes → Prop} (hk : keys K.key) (r : ρ) : (K.save r).Uses keys :=
  Program.uses_within _ (Program.uses_write hk _)

theorem uses_load (K : Kept ρ) {keys : Bytes → Prop} (hk : keys K.key) : K.load.Uses keys :=
  Reading.uses_bind (Reading.uses_within _ ⟨hk, fun _ => trivial⟩) fun _ => trivial

theorem stored_ok {K : Kept ρ} {data : Bytes} {r : ρ} (h : K.decode data = .ok r) : K.stored (some data) = .ok r := by
  rw [stored, h]

theorem stored_error {K : Kept ρ} {data : Bytes} {e : Json.ReadError} (h : K.decode data = .error e) :
    K.stored (some data) = .error (.fault (K.undecodable e)) := by
  rw [stored, h]

theorem stored_eq_ok {K : Kept ρ} {value : Payload} {r : ρ} (h : K.stored value = .ok r) :
    ∃ data, K.decode data = .ok r := by
  cases value with
  | none => cases h
  | some data =>
    cases hdecode : K.decode data with
    | ok r' =>
      rw [stored_ok hdecode] at h
      cases h
      exact ⟨data, hdecode⟩
    | error e =>
      rw [stored_error hdecode] at h
      cases h

end Kept

/-! ## Saving and loading -/

/-- What is kept under the key persists: a record that is saved is loaded as `fix` gives it, which is as
it was exactly if it is `valid`; one that was loaded before is loaded again; nothing else changes. -/
structure Persists (s : Store σ) (holds : σ → Memory → Prop) (key : Bytes) (save : ρ → Program Unit)
    (load : Reading ρ) (fix : ρ → ρ) (valid : ρ → Prop) : Prop where
  saved : ∀ r st m, holds st m → ((save r).run s st).outcome = .ok ()
  loaded : ∀ r st m, holds st m → (load.run s.toSource ((save r).run s st).state).1 = .ok (fix r)
  exactly : ∀ r st m, holds st m → ((load.run s.toSource ((save r).run s st).state).1 = .ok r ↔ valid r)
  again : ∀ r st₀ m₀ st m, holds st₀ m₀ → (load.run s.toSource st₀).1 = .ok r → holds st m →
    (load.run s.toSource ((save r).run s st).state).1 = .ok r
  others : ∀ r st m, holds st m → ∃ m', holds ((save r).run s st).state m' ∧ ∀ k, k ≠ key → m' k = m k

namespace Kept

variable {K : Kept ρ} {s : Store σ} {keys : Bytes → Prop} {holds : σ → Memory → Prop}

theorem run_save (hs : s.Faithful keys holds) (hk : keys K.key) {st : σ} {m : Memory} (h : holds st m) (r : ρ) :
    ((K.save r).run s st).outcome = .ok () ∧
      holds ((K.save r).run s st).state (m.put K.key (some (K.encode r))) := by
  obtain ⟨hout, -, hstate⟩ := Program.run_alike hs (K.uses_save hk r) h
  exact ⟨hout, hstate⟩

theorem run_load (hs : s.Faithful keys holds) (hk : keys K.key) {st : σ} {m : Memory} (h : holds st m) :
    (K.load.run s.toSource st).1 = K.stored (m K.key) :=
  (Reading.run_alike hs (K.uses_load hk) h).1

theorem Fixes.persists {fix : ρ → ρ} {valid : ρ → Prop} (hfix : K.Fixes fix) (hvalid : ∀ r, fix r = r ↔ valid r)
    (hs : s.Faithful keys holds) (hk : keys K.key) : Persists s holds K.key K.save K.load fix valid := by
  have hloaded : ∀ r st m, holds st m → (K.load.run s.toSource ((K.save r).run s st).state).1 = .ok (fix r) := by
    intro r st m h
    rw [run_load hs hk (run_save hs hk h r).2, Memory.put_same, stored_ok (hfix.decode_encode r)]
  refine ⟨fun r st m h => (run_save hs hk h r).1, hloaded, fun r st m h => ?_, fun r st₀ m₀ st m h₀ hr h => ?_,
    fun r st m h => ⟨_, (run_save hs hk h r).2, fun k => Memory.put_other _ _⟩⟩
  · rw [hloaded r st m h, ← hvalid]
    exact ⟨fun heq => by injection heq, fun heq => by rw [heq]⟩
  · rw [run_load hs hk h₀] at hr
    obtain ⟨data, hdata⟩ := stored_eq_ok hr
    rw [hloaded r st m h, hfix.decoded hdata]

end Kept

/-! ## The records of the contract -/

namespace Counter.State

/-- The state record as it is kept. -/
def kept : Kept State where
  key := storageKey
  encode := encode
  decode := decode
  reading := .readState
  writing := .writeState
  missing := .stateNotFound
  undecodable := .undecodableState

theorem load_eq : load = kept.load := by
  refine congrArg _ (funext fun value => ?_)
  cases value with
  | none => rfl
  | some data =>
    cases hdecode : decode data with
    | ok s =>
      rw [Kept.stored_ok hdecode]
      simp only [hdecode]
      rfl
    | error e =>
      rw [Kept.stored_error hdecode]
      simp only [hdecode]
      rfl

theorem kept_fixes : kept.Fixes restored := ⟨decode_encode, decode_restored⟩

theorem restored_eq_self_iff_valid (s : State) : s.restored = s ↔ Utf8.Valid s.owner.bytes := by
  rw [restored_eq_self_iff, Utf8.repair_eq_self_iff_valid]

end Counter.State

namespace Version

/-- The version record as it comes back from storage. -/
def restored (v : Version) : Version := ⟨Utf8.repair v.contract, Utf8.repair v.version⟩

/-- The version record as it is kept. -/
def kept : Kept Version where
  key := storageKey
  encode := encode
  decode := decode
  reading := .readVersion
  writing := .writeVersion
  missing := .versionNotFound
  undecodable := .undecodableVersion

theorem get_eq : get = kept.load := by
  refine congrArg _ (funext fun value => ?_)
  cases value with
  | none => rfl
  | some data =>
    cases hdecode : decode data with
    | ok v =>
      rw [Kept.stored_ok hdecode]
      simp only [hdecode]
      rfl
    | error e =>
      rw [Kept.stored_error hdecode]
      simp only [hdecode]
      rfl

theorem restored_eq_self_iff (v : Version) :
    v.restored = v ↔ Utf8.repair v.contract = v.contract ∧ Utf8.repair v.version = v.version := by
  obtain ⟨c, t⟩ := v
  simp [restored]

theorem restored_eq_self_iff_valid (v : Version) : v.restored = v ↔ Utf8.Valid v.contract ∧ Utf8.Valid v.version := by
  rw [restored_eq_self_iff, Utf8.repair_eq_self_iff_valid, Utf8.repair_eq_self_iff_valid]

theorem member_restored {v v' : Version} {name : Bytes} {j : Json}
    (hj : ∀ text, j = .string text → Utf8.repair text = text) (hv : v.restored = v)
    (h : v.member name j = .ok v') : v'.restored = v' := by
  rw [restored_eq_self_iff] at hv ⊢
  unfold member at h
  split_ifs at h
  · cases j with
    | string text =>
      cases h
      exact ⟨hj text rfl, hv.2⟩
    | null =>
      cases h
      exact hv
    | _ => cases h
  · cases j with
    | string text =>
      cases h
      exact ⟨hv.1, hj text rfl⟩
    | null =>
      cases h
      exact hv
    | _ => cases h
  · cases h
    exact hv

theorem kept_fixes : kept.Fixes restored where
  decode_encode := decode_encode
  decoded h := Json.readDocument_keeps (P := fun v : Version => v.restored = v) (fun _ _ _ _ => member_restored) rfl h

end Version

/-! ## Addresses -/

namespace Address

theorem decode_encode (a : Address) : decode a.encode = .ok ⟨Utf8.repair a.bytes⟩ := by
  have hvalue := Json.value_string Json.maxDepth a.bytes
  rw [Json.render] at hvalue
  have hdoc : Json.document a.encode = some (.string (Utf8.repair a.bytes)) :=
    (Json.Grammar.document_iff _ _).2 (Json.padded_self hvalue)
  rw [decode, Json.readDocument, hdoc]
  rfl

/-- The bytes of an address that was read are repaired. -/
theorem repair_decoded {data : Bytes} {a : Address} (h : decode data = .ok a) : Utf8.repair a.bytes = a.bytes := by
  unfold decode Json.readDocument at h
  cases hdoc : Json.document data with
  | none =>
    rw [hdoc] at h
    cases h
  | some v =>
    rw [hdoc] at h
    cases v with
    | string text =>
      cases h
      obtain ⟨_, _, _, _, _, hvalue, _⟩ := (Json.Grammar.document_iff _ _).1 hdoc
      exact hvalue.text_repaired
    | null =>
      cases h
      rfl
    | _ => cases h

/-- An address takes over the written one repaired, whatever it was before. -/
theorem replace_encode (start a : Address) : start.replace a.encode = (.ok (), ⟨Utf8.repair a.bytes⟩) := by
  rw [replace, decode_encode]

end Address

/-- Records and addresses that are written come back repaired, byte by byte, so as they were exactly if
they are valid; what was read once comes back as it is; and neither record touches the other. -/
theorem records_persist_repaired {s : Store σ} {keys : Bytes → Prop} {holds : σ → Memory → Prop}
    (hs : s.Faithful keys holds) (hstate : keys Counter.State.storageKey) (hversion : keys Version.storageKey) :
    (∀ b t, Utf8.Fixed b t ↔ t = Utf8.repair b) ∧
    Persists s holds Counter.State.storageKey Counter.State.save Counter.State.load
      (fun r => ⟨⟨Utf8.repair r.owner.bytes⟩, r.counter⟩) (fun r => Utf8.Valid r.owner.bytes) ∧
    Persists s holds Version.storageKey Version.set Version.get
      (fun v => ⟨Utf8.repair v.contract, Utf8.repair v.version⟩)
      (fun v => Utf8.Valid v.contract ∧ Utf8.Valid v.version) ∧
    Counter.State.storageKey ≠ Version.storageKey ∧
    (∀ start a : Address, start.replace a.encode = (.ok (), ⟨Utf8.repair a.bytes⟩) ∧
      (start.replace a.encode = (.ok (), a) ↔ Utf8.Valid a.bytes)) ∧
    ∀ (start a : Address) (data : Bytes), Address.decode data = .ok a → start.replace a.encode = (.ok (), a) := by
  rw [Counter.State.load_eq, Version.get_eq]
  refine ⟨fun b t => Utf8.fixed_iff,
    Counter.State.kept_fixes.persists Counter.State.restored_eq_self_iff_valid hs hstate,
    Version.kept_fixes.persists Version.restored_eq_self_iff_valid hs hversion, by decide,
    fun start a => ⟨Address.replace_encode start a, ?_⟩, fun start a data h => ?_⟩
  · rw [Address.replace_encode, ← Utf8.repair_eq_self_iff_valid]
    obtain ⟨b⟩ := a
    simp
  · rw [Address.replace_encode, Address.repair_decoded h]

/-- An owner of one stray byte is loaded as U+FFFD, and the version record that was there stays. -/
theorem records_persist_repaired_stray :
    let s : PlainStore := { values := Table.ofList [(Version.storageKey, some (Version.encode ⟨[], []⟩))] }
    let r := (Counter.State.save ⟨⟨[0xff]⟩, 7⟩).run PlainStore.store s
    s.faults = {} ∧ r.outcome = .ok () ∧
      (Counter.State.load.run PlainStore.store.toSource r.state).1 = .ok ⟨⟨[0xef, 0xbf, 0xbd]⟩, 7⟩ ∧
      r.state.contents Version.storageKey = some (Version.encode ⟨[], []⟩) := by
  intro s r
  obtain ⟨-, hstate, -⟩ := records_persist_repaired PlainStore.store_faithful trivial trivial
  have hs : s.faults = {} ∧ s.contents = s.contents := ⟨rfl, rfl⟩
  obtain ⟨m', ⟨-, rfl⟩, hother⟩ := hstate.others ⟨⟨[0xff]⟩, 7⟩ s s.contents hs
  refine ⟨rfl, hstate.saved _ _ _ hs, hstate.loaded _ _ _ hs, ?_⟩
  rw [hother _ (by decide)]
  decide +kernel

end CounterLedger
