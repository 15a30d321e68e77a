/-
A host with the counter refines the machine. Whatever is asked of a fresh host, as long as it
concerns the counter or a name without a contract, every reply is the reply of the machine up to
the contexts of errors.
-/
import CounterLedger.Proofs.Counter.Machine

namespace CounterLedger.Counter

/-! ## Reading -/

theorem run_query {m : Memory} {record : Option State} (hm : Holds m record) (env : Env) (msg : Payload) :
    ((contract.query env msg).run scope.toSource m).1.mapError Error.bare =
      Machine.outcome (Machine.answer msg record) := by
  have hstrict := strict_queryMsg (messageBytes msg)
  unfold Machine.answer contract
  simp only
  cases hd : QueryMsg.decode (messageBytes msg) with
  | error e =>
    show Outcome.error e.bare = _
    rw [hstrict e hd]
    rfl
  | ok x =>
    obtain _ := x
    show (((State.load >>= fun s => pure s.counter).within .getCount >>= fun n =>
      pure (some (encodeCount n))).run scope.toSource m).1.mapError Error.bare = _
    rw [Reading.run_bind, Reading.run_within, Reading.run_bind]
    cases record with
    | none => rw [load_none hm.1]; rfl
    | some s =>
      rw [load_some hm]
      show Outcome.ok (some (encodeCount s.counter)) = Outcome.ok (some (Machine.countText s.counter))
      rw [encodeCount_eq]

theorem run_version {m : Memory} {record : Option State} (hm : Holds m record) :
    (Version.get.run scope.toSource m).1 = Machine.outcome (Machine.info record) := by
  unfold Version.get
  rw [run_read]
  cases record with
  | none =>
    obtain ⟨-, hv, -⟩ := hm
    rw [show m (Namespace.key contractName Version.storageKey) = none from hv]
    rfl
  | some s =>
    -- name and version of the counter are plain text, which is its own repair
    have hd : Version.decode Machine.version.encode = .ok Machine.version := by
      rw [Version.decode_encode]
      decide
    rw [show m (Namespace.key contractName Version.storageKey) = _ from Held.version hm]
    simp only [hd]
    rfl

/-! ## Calls -/

/-- A call of the counter on a host that works goes as the machine says. A call that the machine
refuses leaves the database as it is. -/
theorem host_invoke {h : Host} (hh : h.Works) (hsv : h.service.find? contractName = some contract)
    {record : Option State} (hr : Holds (Host.contents h.database) record) (action : Action) {caller : Address}
    (hc : caller.isEmpty = false) (msg : Payload) :
    let x := h.invoke action caller contractName msg
    match Machine.next action caller msg record with
    | .error f => (∃ e, x.outcome = .error e ∧ e.bare = .fault f) ∧ x.host.database = h.database
    | .ok (res, s) => x.outcome.map Event.response = .ok res ∧ Held (Host.contents x.host.database) s ∧
        Host.keptHeight x.host.database = Host.keptHeight h.database + 1 ∧ x.host.database.isOpen = true := by
  obtain ⟨hout, hdone⟩ := Host.invoke_memory hh action hc contractName msg
  have hnext := invoke_next hsv hr action (h.env (Host.keptHeight h.database + 1)) hc msg
  generalize Machine.next action caller msg record = x at hnext ⊢
  obtain f | ⟨res, s⟩ := x
  · obtain ⟨e, he, hbare⟩ := hnext
    rw [he] at hout hdone
    exact ⟨⟨e, hout, hbare⟩, hdone⟩
  · obtain ⟨hres, hheld⟩ := hnext
    rw [hres] at hout hdone
    obtain ⟨hheight, hopen, hkept⟩ := hdone
    exact ⟨by rw [hout]; rfl, hheld.mono fun k _ => hkept k, hheight, hopen⟩

/-! ## Refinement -/

/-- The ledger stands for the machine: a host that works, with quiet observers, whose database holds
the record and the height. -/
structure Stands (sv : Service) (l : Ledger) (mc : Machine) : Prop where
  works : l.host.Works
  service : l.host.service = sv
  quiet : l.Quiet
  holds : Holds (Host.contents l.host.database) mc.record
  height : Host.keptHeight l.host.database = mc.height

/-- The request concerns the counter, or a name without a contract where that is answered. -/
def Addressed (sv : Service) : Host.Request → Prop
  | .call _ _ name _ => name = contractName ∨ sv.find? name = none
  | .query name _ => name = contractName ∨ sv.find? name = none
  | .height => True
  | .info name => name = contractName

theorem serve_call_stands {sv : Service} (hsv : sv.find? contractName = some contract) {l : Ledger} {mc : Machine}
    (h : Stands sv l mc) (action : Action) (caller : Address) {name : Bytes}
    (hname : name = contractName ∨ sv.find? name = none) (msg : Payload) :
    (l.serve (.call action caller name msg)).1.bare = (mc.serve (.call action caller name msg)).1 ∧
      Stands sv (l.serve (.call action caller name msg)).2 (mc.serve (.call action caller name msg)).2 := by
  obtain ⟨ho, hhost, hquiet⟩ := Ledger.call_quiet h.quiet action caller name msg
  have hservice : (l.call action caller name msg).ledger.host.service = sv := by
    rw [hhost, l.host.invoke_service, h.service]
  -- a call that changes nothing in the database leaves the machine as it is
  have stays (hdb : (l.host.invoke action caller name msg).host.database = l.host.database) :
      Stands sv (l.call action caller name msg).ledger mc := by
    have hworks : (l.host.invoke action caller name msg).host.Works := h.works.invoke (by rw [hdb]; exact h.works.isOpen)
    refine ⟨by rw [hhost]; exact hworks, hservice, hquiet, ?_, ?_⟩
    · rw [hhost, hdb]; exact h.holds
    · rw [hhost, hdb]; exact h.height
  simp only [Ledger.serve, Machine.serve, ho]
  cases hc : caller.isEmpty with
  | true =>
    have hinvoke := l.host.invoke_no_caller action hc name msg
    exact ⟨by rw [hinvoke]; rfl, stays (by rw [hinvoke])⟩
  | false =>
    simp only [Bool.false_eq_true, if_false]
    by_cases hn : name = contractName
    · subst hn
      have hnext := host_invoke h.works (h.service ▸ hsv) h.holds action hc msg
      simp only [ne_eq, not_true_eq_false, if_false]
      generalize Machine.next action caller msg mc.record = x at hnext
      obtain f | ⟨res, s⟩ := x
      · obtain ⟨⟨e, he, hbare⟩, hdb⟩ := hnext
        refine ⟨?_, stays hdb⟩
        rw [he]
        show Host.Reply.response (.error e.bare) = _
        rw [hbare]
      · obtain ⟨hres, hheld, hheight, hopen⟩ := hnext
        refine ⟨by rw [hres]; rfl, ?_⟩
        refine ⟨by rw [hhost]; exact h.works.invoke hopen, hservice, hquiet, ?_, ?_⟩
        · rw [hhost]; exact hheld
        · rw [hhost, hheight, h.height]
    · obtain ⟨hout, hdone⟩ := Host.invoke_memory h.works action hc name msg
      rw [Service.invoke_unknown (h.service ▸ hname.resolve_left hn)] at hout hdone
      simp only [ne_eq, hn, not_false_eq_true, if_true]
      exact ⟨by rw [hout]; rfl, stays hdone⟩

/-- One request keeps the ledger standing for the machine, and is answered alike. -/
theorem serve_stands {sv : Service} (hsv : sv.find? contractName = some contract) {r : Host.Request}
    (hr : Addressed sv r) {l : Ledger} {mc : Machine} (h : Stands sv l mc) :
    (l.serve r).1.bare = (mc.serve r).1 ∧ Stands sv (l.serve r).2 (mc.serve r).2 := by
  cases r with
  | call action caller name msg => exact serve_call_stands hsv h action caller hr msg
  | query name msg =>
    obtain ⟨metrics, hx⟩ := l.host.query_host name msg
    have hstands : Stands sv { l with host := (l.host.query name msg).host } mc := by
      rw [hx]
      exact ⟨⟨h.works.sound, h.works.isOpen⟩, h.service, h.quiet.atHost _, h.holds, h.height⟩
    have hq := Host.query_works h.works name msg
    rw [h.service] at hq
    simp only [Ledger.serve, Machine.serve]
    by_cases hn : name = contractName
    · subst hn
      rw [if_neg (by simp)]
      refine ⟨?_, hstands⟩
      rw [hsv] at hq
      have hans := run_query h.holds (l.host.env (Host.keptHeight l.host.database)) msg
      rw [hq]
      exact congrArg Host.Reply.answer hans
    · rw [if_pos hn]
      refine ⟨?_, hstands⟩
      rw [Or.resolve_left hr hn] at hq
      rw [hq]
      rfl
  | height =>
    refine ⟨?_, h⟩
    show Host.Reply.height (l.host.height.mapError Error.bare) = _
    rw [Host.height_works h.works, h.height]
    rfl
  | info name =>
    obtain rfl : name = contractName := hr
    refine ⟨?_, h⟩
    show Host.Reply.info ((l.host.contractInfo contractName).mapError Error.bare) = _
    rw [Host.contractInfo_works h.works, run_version h.holds]
    show _ = Host.Reply.info (Machine.outcome (Machine.info mc.record))
    cases mc.record <;> rfl

theorem stands_fresh {sv : Service} (chain : Bytes) (clock : Int) (metrics : Metrics) {watcher : Watcher}
    (hwatcher : .missing ∉ watcher) :
    Stands sv { host := { service := sv, chain, clock, metrics }, watcher } {} where
  works := ⟨rfl, rfl⟩
  service := rfl
  quiet := ⟨⟨hwatcher, by simp⟩, by simp [Ledger.Plans.Quiet]⟩
  holds := ⟨rfl, rfl, rfl⟩
  height := rfl

/-- A fresh host on which the counter is registered answers every request of a run as the machine
does: the outcome of each call, with the error up to its contexts, each answer, each height and
each version record. Requests concern the counter or names without a contract; observers of any type
may watch, as long as none of them is missing. -/
theorem host_refines_machine (sv : Service) (hsv : sv.find? contractName = some contract) (chain : Bytes)
    (clock : Int) (metrics : Metrics) (watcher : Watcher) (hwatcher : .missing ∉ watcher) (requests : List Host.Request)
    (haddressed : ∀ r ∈ requests, Addressed sv r) :
    (transcript Ledger.serve requests { host := { service := sv, chain, clock, metrics }, watcher }).1.map
        Host.Reply.bare =
      (transcript Machine.serve requests {}).1 := by
  have hrelated := (transcript_related (Q := fun (x y : Host.Reply) => x.bare = y) (R := Stands sv)
    (fun r hr l mc h => serve_stands hsv (haddressed r hr) h) (stands_fresh chain clock metrics hwatcher)).1
  rw [← List.forall₂_eq_eq_eq, List.forall₂_map_left_iff]
  exact hrelated

/-- The service on which only the counter is registered. -/
def soleService : Service := { contracts := Table.empty.insert contractName (some contract) }

theorem soleService_find (name : Bytes) :
    soleService.find? name = if contractName = name then some contract else none := by
  simp only [Service.find?, soleService, Table.get?_insert]
  split <;> rfl

/-- A run with a call that the counter refuses and one of a name without a contract. -/
def sampleRequests : List Host.Request :=
  [.call .instantiate ⟨[0xff]⟩ contractName (some (utf8 "\x7b\"counter\":7\x7d")),
    .call .execute ⟨[0xff]⟩ contractName (some (utf8 "\x7b\"reset\":\x7b\"value\":1\x7d\x7d")),
    .call .execute ⟨[0x61]⟩ [0x62] none, .query contractName none, .height, .info contractName]

/-- An object and a slice that watch. -/
def sampleWatcher : Watcher := [.handle [1], .value (.closed [0x73] [2])]

theorem host_refines_machine_sample :
    soleService.find? contractName = some contract ∧ .missing ∉ sampleWatcher ∧
      (∀ r ∈ sampleRequests, Addressed soleService r) ∧
      (transcript Ledger.serve sampleRequests { host := { service := soleService }, watcher := sampleWatcher }).1.map
          Host.Reply.bare =
        (transcript Machine.serve sampleRequests {}).1 := by
  have hsole : soleService.find? contractName = some contract := by rw [soleService_find, if_pos rfl]
  have hwatcher : .missing ∉ sampleWatcher := by decide
  have haddressed : ∀ r ∈ sampleRequests, Addressed soleService r := by
    have hother : soleService.find? [0x62] = none := by rw [soleService_find, if_neg (by decide)]
    simp [sampleRequests, Addressed, hother]
  exact ⟨hsole, hwatcher, haddressed,
    host_refines_machine soleService hsole _ _ _ sampleWatcher hwatcher sampleRequests haddressed⟩

end CounterLedger.Counter
