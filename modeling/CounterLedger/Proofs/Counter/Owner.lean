/-
Who may reset the counter. The caller that creates the counter is stored in a record, and a stored
text comes back repaired. From the creation on, whatever is called and whoever watches, a reset
succeeds for exactly one caller: the repaired creator. This is the creator if and only if its
address is valid UTF-8; any other creator is locked out, and the repaired address may reset.
-/
import CounterLedger.Proofs.Counter.Refinement
import CounterLedger.Proofs.Namespace

namespace CounterLedger.Counter

/-! ## Other contracts -/

/-- No other contract uses a storage key of the counter. With the counter alone there is nothing to
ask; see `apart_of_distinct` for contracts in namespaces of their own. -/
def Apart (sv : Service) : Prop :=
  ∀ name c, sv.find? name = some c → name ≠ contractName → ∀ action env sender msg,
    (Service.body c action name env sender msg).Uses fun k => ¬ Own k

/-- What the storage keys of the counter stand for. -/
def ownPairs : List (Bytes × Bytes) :=
  [(contractName, State.storageKey), (contractName, Version.storageKey), (Service.markerSpace, contractName)]

theorem not_own {space k : Bytes} (hd : Namespace.Distinct ((space, k) :: ownPairs))
    (hnot : (space, k) ∉ ownPairs) : ¬ Own (Namespace.key space k) := by
  have hne : ∀ {space' k'}, (space', k') ∈ ownPairs → Namespace.key space k ≠ Namespace.key space' k' := by
    intro space' k' hmem he
    obtain ⟨rfl, rfl⟩ := hd.key_inj List.mem_cons_self (List.mem_cons_of_mem _ hmem) he
    exact hnot hmem
  rintro (h | h | h)
  · exact hne (by simp [ownPairs]) h
  · exact hne (by simp [ownPairs]) h
  · exact hne (by simp [ownPairs]) h

/-- Contracts are apart from the counter as long as none of them is in the namespace of the markers
and no digest of a key that they use collides with one of the counter. -/
theorem apart_of_distinct {sv : Service} (hfree : sv.find? Service.markerSpace = none)
    (hd : ∀ name c, sv.find? name = some c → name ≠ contractName →
      Namespace.Distinct ((Service.markerSpace, name) :: ownPairs) ∧ ∀ action env sender msg,
        (c.program action env sender msg).Uses fun k => Namespace.Distinct ((name, k) :: ownPairs)) :
    Apart sv := by
  intro name c hc hname action env sender msg
  obtain ⟨hmarker, hkeys⟩ := hd name c hc hname
  have hspace : contractName ≠ Service.markerSpace := by decide
  refine Service.body_uses ?_ c action env sender msg ?_
  · refine not_own hmarker ?_
    simp [ownPairs, hspace.symm, hname]
  · refine Program.Uses.scoped ((hkeys action env sender msg).mono fun k hk => not_own hk ?_)
    simp [ownPairs, hname, Service.ne_markerSpace hfree hc]

/-- A call of another contract leaves the keys of the counter as they are. -/
theorem invoke_other {sv : Service} (hsv : Apart sv) {name : Bytes} (hname : name ≠ contractName) {c : Contract}
    (hc : sv.find? name = some c) (action : Action) (env : Env) (sender : Address) (msg : Payload) (m : Memory)
    {k : Bytes} (hk : Own k) : (sv.invoke Memory.store action name env sender msg m).state k = m k := by
  have hu := hsv name c hc hname action env sender msg
  have hframe : ((Service.body c action name env sender msg).run Memory.store m).state k = m k :=
    Program.run_frame _ m fun hmem => hu.keysUsed Memory.store m k hmem hk
  rw [Service.invoke_memory hc]
  simp only [Service.report_state, Program.Ran.kept]
  cases ((Service.body c action name env sender msg).run Memory.store m).outcome with
  | ok res => exact hframe
  | error e => rfl
  | abort r => rfl

/-! ## The owner stays -/

/-- A host that works and holds a counter of this owner. -/
structure Owned (sv : Service) (owner : Address) (h : Host) : Prop where
  works : h.Works
  service : h.service = sv
  held : ∃ n, Held (Host.contents h.database) ⟨owner, n⟩

theorem owner_advance {caller : Address} {msg : Payload} {s s' : State} {res : Response}
    (h : Machine.advance caller msg s = .ok (res, s')) : s'.owner = s.owner := by
  unfold Machine.advance at h
  split at h
  · cases h
  · split at h
    · cases h
    · cases h; rfl
  · cases h
  · split at h
    · cases h; rfl
    · cases h

/-- A host whose database is as before is owned as before. -/
theorem Owned.congr {sv : Service} {owner : Address} {h h' : Host} (ho : Owned sv owner h)
    (hh : ∃ database metrics, h' = { h with database, metrics }) (hdb : h'.database = h.database) :
    Owned sv owner h' := by
  obtain ⟨database, metrics, rfl⟩ := hh
  obtain rfl : database = h.database := hdb
  exact ⟨⟨ho.works.sound, ho.works.isOpen⟩, ho.service, ho.held⟩

theorem owned_query {sv : Service} {owner : Address} (h : Host) (name : Bytes) (msg : Payload)
    (ho : Owned sv owner h) : Owned sv owner (h.query name msg).host := by
  obtain ⟨metrics, hx⟩ := h.query_host name msg
  exact ho.congr ⟨h.database, metrics, hx⟩ (by rw [hx])

/-- No call changes the owner. -/
theorem owned_invoke {sv : Service} (hsv : sv.find? contractName = some contract) (hapart : Apart sv)
    {owner : Address} (h : Host) (action : Action) (caller : Address) (name : Bytes) (msg : Payload)
    (ho : Owned sv owner h) : Owned sv owner (h.invoke action caller name msg).host := by
  have hx := h.invoke_host action caller name msg
  cases hc : caller.isEmpty with
  | true => exact ho.congr hx (by rw [h.invoke_no_caller action hc])
  | false =>
    obtain ⟨n, hheld⟩ := ho.held
    -- a call that is committed keeps the host working with the same contracts
    have keeps {n : UInt64} (hopen : (h.invoke action caller name msg).host.database.isOpen = true)
        (hheld' : Held (Host.contents (h.invoke action caller name msg).host.database) ⟨owner, n⟩) :
        Owned sv owner (h.invoke action caller name msg).host :=
      ⟨ho.works.invoke hopen, (h.invoke_service action caller name msg).trans ho.service, n, hheld'⟩
    by_cases hname : name = contractName
    · subst hname
      have hnext := host_invoke ho.works (ho.service ▸ hsv)
        (show Holds (Host.contents h.database) (some ⟨owner, n⟩) from hheld) action hc msg
      cases hr : Machine.next action caller msg (some ⟨owner, n⟩) with
      | error f =>
        rw [hr] at hnext
        exact ho.congr hx hnext.2
      | ok x =>
        obtain ⟨res, s⟩ := x
        rw [hr] at hnext
        obtain ⟨-, hheld', -, hopen⟩ := hnext
        -- only a transition can succeed, and no transition touches the owner
        have hs : s.owner = owner := by
          cases action with
          | instantiate => cases hr
          | execute => exact owner_advance hr
        obtain ⟨_, n'⟩ := s
        obtain rfl := hs
        exact keeps hopen hheld'
    · obtain ⟨-, hdone⟩ := Host.invoke_memory ho.works action hc name msg
      cases hfind : h.service.find? name with
      | none =>
        rw [Service.invoke_unknown hfind] at hdone
        exact ho.congr hx hdone
      | some c =>
        have hown := fun k => invoke_other hapart hname (ho.service ▸ hfind) action
          (h.env (Host.keptHeight h.database + 1)) caller msg (Host.contents h.database) (k := k)
        rw [← ho.service] at hown
        cases hr : (h.service.invoke Memory.store action name (h.env (Host.keptHeight h.database + 1)) caller msg
            (Host.contents h.database)).outcome with
        | error e =>
          rw [hr] at hdone
          exact ho.congr hx hdone
        | abort r =>
          rw [hr] at hdone
          exact ho.congr hx hdone
        | ok res =>
          rw [hr] at hdone
          obtain ⟨-, hopen, hkept⟩ := hdone
          exact keeps hopen (hheld.mono fun k hk v hv => hkept k v ((hown k hk).trans hv))

/-- A caller that creates the counter owns it, under the repaired address. -/
theorem owned_created {h : Host} (hh : h.Works) (hsv : h.service.find? contractName = some contract)
    {creator : Address} {msg : Payload} {e : Event}
    (he : (h.invoke .instantiate creator contractName msg).outcome = .ok e) :
    Owned h.service ⟨Utf8.repair creator.bytes⟩ (h.invoke .instantiate creator contractName msg).host ∧
      creator.isEmpty = false := by
  cases hc : creator.isEmpty with
  | true =>
    rw [h.invoke_no_caller .instantiate hc] at he
    cases he
  | false =>
    refine ⟨?_, rfl⟩
    obtain ⟨hout, hdone⟩ := Host.invoke_memory hh .instantiate hc contractName msg
    rw [hout] at he
    cases hmark : Host.contents h.database marker with
    | some v =>
      rw [invoke_marked hsv hmark] at he
      cases he
    | none =>
      have hcreate := invoke_create hsv hmark (h.env (Host.keptHeight h.database + 1)) hc msg
      unfold Machine.create at hcreate
      cases hd : InstantiateMsg.decode (messageBytes msg) with
      | error e' =>
        rw [hd] at hcreate
        obtain ⟨e'', he'', -⟩ := hcreate
        rw [he''] at he
        cases he
      | ok m =>
        rw [hd] at hcreate
        obtain ⟨hres, hheld⟩ := hcreate
        rw [hres] at hdone
        obtain ⟨-, hopen, hkept⟩ := hdone
        exact ⟨hh.invoke hopen, h.invoke_service .instantiate creator contractName msg, m.counter,
          hheld.mono fun k _ => hkept k⟩

/-! ## Who may reset -/

/-- Resets of the counter succeed for exactly this caller. -/
def Obeys (h : Host) (a : Address) : Prop :=
  ∀ (caller : Address) (v : UInt64) (msg : Payload), ExecuteMsg.decode (messageBytes msg) = .ok (.reset (some v)) →
    ((∃ e, (h.invoke .execute caller contractName msg).outcome = .ok e) ↔ caller = a)

theorem ok_of_map {α β : Type} {o : Outcome α} {f : α → β} {b : β} (h : o.map f = .ok b) : ∃ a, o = .ok a := by
  cases o with
  | ok a => exact ⟨a, rfl⟩
  | error e => cases h
  | abort r => cases h

/-- A counter obeys its owner. -/
theorem Owned.obeys {sv : Service} (hsv : sv.find? contractName = some contract) {owner : Address}
    (hne : owner.isEmpty = false) {h : Host} (ho : Owned sv owner h) : Obeys h owner := by
  intro caller v msg hmsg
  obtain ⟨n, hheld⟩ := ho.held
  cases hc : caller.isEmpty with
  | true =>
    rw [h.invoke_no_caller .execute hc]
    constructor
    · rintro ⟨e, he⟩
      cases he
    · rintro rfl
      rw [hc] at hne
      cases hne
  | false =>
    have hnext := host_invoke ho.works (ho.service ▸ hsv)
      (show Holds (Host.contents h.database) (some ⟨owner, n⟩) from hheld) .execute hc msg
    simp only [Machine.next, Machine.advance, hmsg] at hnext
    by_cases hcaller : caller = owner
    · rw [if_pos hcaller] at hnext
      obtain ⟨hres, -⟩ := hnext
      exact ⟨fun _ => hcaller, fun _ => ok_of_map hres⟩
    · rw [if_neg hcaller] at hnext
      obtain ⟨⟨e, he, -⟩, -⟩ := hnext
      refine ⟨?_, fun hcaller' => absurd hcaller' hcaller⟩
      rintro ⟨e', he'⟩
      rw [he] at he'
      cases he'

/-- A message that resets the counter to zero. -/
def resetMessage : Payload := some (utf8 "\x7b\"reset\":\x7b\"value\":0\x7d\x7d")

theorem decode_resetMessage : ExecuteMsg.decode (messageBytes resetMessage) = .ok (.reset (some 0)) := by
  decide +kernel

/-- No host obeys two addresses. -/
theorem Obeys.unique {h : Host} {a b : Address} (ha : Obeys h a) (hb : Obeys h b) : a = b := by
  have hreset := (ha a 0 resetMessage decode_resetMessage).2 rfl
  exact (hb a 0 resetMessage decode_resetMessage).1 hreset

/-- From its creation on, and whatever happens on the ledger, the counter obeys the repaired address
of its creator and nobody else. It obeys the creator exactly when the address of the creator is
valid UTF-8. Other contracts may be registered as long as they use none of the keys of the counter. -/
theorem reset_authority_iff_valid (l : Ledger) (hworks : l.host.Works)
    (hsv : l.host.service.find? contractName = some contract) (hapart : Apart l.host.service)
    (creator : Address) (msg : Payload) (e : Event)
    (hcreated : (l.host.invoke .instantiate creator contractName msg).outcome = .ok e) (l' : Ledger)
    (hsteps : Relation.ReflTransGen Ledger.Step (l.call .instantiate creator contractName msg).ledger l') :
    Obeys l'.host ⟨Utf8.repair creator.bytes⟩ ∧ (Obeys l'.host creator ↔ Utf8.isValid creator.bytes = true) := by
  obtain ⟨howned, hc⟩ := owned_created hworks hsv hcreated
  have hcall := Ledger.call_keeps owned_query (owned_invoke hsv hapart) howned
  have hafter := Ledger.steps_keep owned_query (owned_invoke hsv hapart) hsteps hcall
  have hne : Address.isEmpty ⟨Utf8.repair creator.bytes⟩ = false := by
    simp only [Address.isEmpty, decide_eq_false_iff_not, Utf8.repair_eq_nil_iff] at hc ⊢
    exact hc
  have hobeys := hafter.obeys hsv hne
  refine ⟨hobeys, ?_⟩
  -- only one address is obeyed, so the creator is only if it is its own repair
  rw [← Utf8.repair_eq_self_iff]
  constructor
  · intro hcreator
    exact congrArg Address.bytes (hobeys.unique hcreator)
  · intro hvalid
    rwa [hvalid] at hobeys

/-- A message that creates the counter at seven. -/
def createMessage : Payload := some (utf8 "\x7b\"counter\":7\x7d")

/-- A fresh host with the counter only. -/
def soleHost : Host := { service := soleService }

theorem soleHost_works : soleHost.Works := ⟨rfl, rfl⟩

theorem soleHost_find : soleHost.service.find? contractName = some contract := by
  rw [soleHost, soleService_find, if_pos rfl]

theorem soleHost_apart : Apart soleHost.service := by
  intro name c hfind hname
  rw [soleHost, soleService_find, if_neg (Ne.symm hname)] at hfind
  cases hfind

/-- Any caller can create the counter on a fresh host. -/
theorem soleHost_created (creator : Address) (hc : creator.isEmpty = false) :
    ∃ e, (soleHost.invoke .instantiate creator contractName createMessage).outcome = .ok e := by
  have hdecode : InstantiateMsg.decode (messageBytes createMessage) = .ok ⟨7⟩ := by decide +kernel
  have hnext := host_invoke soleHost_works soleHost_find
    (show Holds (Host.contents soleHost.database) none from ⟨rfl, rfl, rfl⟩) .instantiate hc createMessage
  simp only [Machine.next, Machine.create, hdecode] at hnext
  exact ok_of_map hnext.1

theorem reset_authority_iff_valid_stray :
    soleHost.Works ∧ soleHost.service.find? contractName = some contract ∧ Apart soleHost.service ∧
      ∃ e, (soleHost.invoke .instantiate ⟨[0xff]⟩ contractName createMessage).outcome = .ok e ∧
        Obeys (Ledger.call { host := soleHost } .instantiate ⟨[0xff]⟩ contractName createMessage).ledger.host
          ⟨Utf8.repair [0xff]⟩ := by
  obtain ⟨e, he⟩ := soleHost_created ⟨[0xff]⟩ rfl
  have hauthority := reset_authority_iff_valid { host := soleHost } soleHost_works soleHost_find soleHost_apart
    ⟨[0xff]⟩ createMessage e he _ .refl
  exact ⟨soleHost_works, soleHost_find, soleHost_apart, e, he, hauthority.1⟩

/-- A creator whose address is a stray byte is locked out, and the replacement character may reset. -/
theorem stray_creator_locked_out :
    let created := soleHost.invoke .instantiate ⟨[0xff]⟩ contractName createMessage
    (∃ e, created.outcome = .ok e) ∧
      (∀ e, (created.host.invoke .execute ⟨[0xff]⟩ contractName resetMessage).outcome ≠ .ok e) ∧
      ∃ e, (created.host.invoke .execute ⟨[0xef, 0xbf, 0xbd]⟩ contractName resetMessage).outcome = .ok e := by
  obtain ⟨e, he⟩ := soleHost_created ⟨[0xff]⟩ rfl
  obtain ⟨howned, -⟩ := owned_created soleHost_works soleHost_find he
  have hobeys := howned.obeys soleHost_find (by decide)
  have hrepair : (⟨Utf8.repair [0xff]⟩ : Address) = ⟨[0xef, 0xbf, 0xbd]⟩ := by decide
  rw [hrepair] at hobeys
  refine ⟨⟨e, he⟩, fun e' he' => ?_, (hobeys _ 0 resetMessage decode_resetMessage).2 rfl⟩
  have hcaller := (hobeys _ 0 resetMessage decode_resetMessage).1 ⟨e', he'⟩
  exact absurd hcaller (by decide)

end CounterLedger.Counter
