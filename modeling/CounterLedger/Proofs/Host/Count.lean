/-
The height of a host and its metrics. On a host that works, a call that is committed raises the
height by one and is counted as accepted once; any other call, and every query, leaves both as they
are. So between two states of a host the height has grown by as much as the counters of the accepted
calls.
-/
import CounterLedger.Proofs.Host.Storage

namespace CounterLedger

/-- The state-changing invocations that were accepted. -/
def Metrics.accepted (m : Metrics) : Nat := m.count .instantiate .accepted + m.count .execute .accepted

theorem Metrics.accepted_record_action (m : Metrics) (action : Action) (s : Status) :
    (m.record action.entry s).accepted = m.accepted + if s = .accepted then 1 else 0 := by
  cases action <;> cases s <;>
    simp only [accepted, count, record, Action.entry, Tally.count, Tally.record, reduceCtorEq, if_false, if_true] <;>
    omega

theorem Metrics.accepted_record_query (m : Metrics) (s : Status) : (m.record .query s).accepted = m.accepted := rfl

/-- An invocation is counted as accepted exactly when it has a response. -/
theorem Service.invoke_counted {σ : Type} (sv : Service) (s : Store σ) (action : Action) (name : Bytes) (env : Env)
    (sender : Address) (msg : Payload) (st : σ) :
    (sv.invoke s action name env sender msg st).counted = some .accepted ↔
      ∃ res, (sv.invoke s action name env sender msg st).outcome = .ok res := by
  simp only [invoke_eq]
  cases sv.find? name with
  | none => simp
  | some c =>
    simp only [report_outcome]
    generalize s.settle _ = r
    obtain ⟨out, st'⟩ := r
    cases out <;> simp [report]

namespace Host

theorem accepted_count (h : Host) (action : Action) (s : Option Status) :
    (h.count action.entry s).metrics.accepted = h.metrics.accepted + if s = some .accepted then 1 else 0 := by
  cases s with
  | none => simp [count]
  | some s => simp [count, Metrics.accepted_record_action]

/-- The work of a call on a host that works is counted as accepted exactly when it succeeds. -/
theorem work_counted {h : Host} (hb : h.breakdown = none) (action : Action) (caller : Address) (name : Bytes)
    (msg : Payload) {tx : Transaction} (hw : tx.writable = true) :
    (h.work action caller name msg tx).counted = some .accepted ↔
      ∃ e, (h.work action caller name msg tx).outcome = .ok e := by
  obtain ⟨tx₁, h₁, hw₁, hb₁⟩ := openBucket_ok hb (show hostBucket ≠ [] by decide) .hostBucket .hostBucket hw
  obtain ⟨tx₂, h₂, hw₂, hb₂⟩ := openBucket_ok hb (show stateBucket ≠ [] by decide) .stateBucket .stateBucket hw₁
  have hstorage : h.storage = Transaction.store stateBucket := by rw [storage, if_neg (by simp [hb])]
  have hcounted := h.service.invoke_counted (Transaction.store stateBucket) action name
    (h.env (readHeight tx₂ + 1)) caller msg tx₂
  simp only [work, h₁, h₂, hstorage]
  have hw₃ := (Service.invoke_alike (Transaction.store_faithful stateBucket) Transaction.writable_key h.service action
    name (h.env (readHeight tx₂ + 1)) caller msg (show tx₂.writable = true ∧ ∀ k, tx₂.get stateBucket k = _ from
      ⟨hw₂, fun _ => rfl⟩)).2.2.2.1
  generalize h.service.invoke (Transaction.store stateBucket) action name (h.env (readHeight tx₂ + 1)) caller msg
    tx₂ = r at hcounted hw₃
  cases hr : r.outcome with
  | error e => simp [hr] at hcounted; simp [hcounted]
  | abort a => simp [hr] at hcounted; simp [hcounted]
  | ok res =>
    obtain ⟨tx₃, h₃, -, -⟩ := writeHeight_ok hb (readHeight tx₂ + 1) hw₃
    simp [hr] at hcounted
    simp [h₃, hcounted]

/-- Whether a call was committed, as a number. -/
def committedCalls {α : Type} : Outcome α → Nat
  | .ok _ => 1
  | _ => 0

theorem exists_of_committedCalls {α : Type} {o : Outcome α} (h : committedCalls o = 1) : ∃ a, o = .ok a := by
  cases o with
  | ok a => exact ⟨a, rfl⟩
  | error e => cases h
  | abort reason => cases h

/-- A call of a host that works is counted as accepted exactly when it is committed. -/
theorem invoke_accepted {h : Host} (hh : h.Works) (action : Action) (caller : Address) (name : Bytes) (msg : Payload) :
    (h.invoke action caller name msg).host.metrics.accepted =
      h.metrics.accepted + committedCalls (h.invoke action caller name msg).outcome := by
  cases hc : caller.isEmpty with
  | true => rw [invoke_no_caller h action hc]; rfl
  | false =>
    have hstart : h.database.start true = .ok { writable := true, buckets := h.database.buckets } := by
      rw [Database.start, if_pos hh.isOpen]
    have hwritable : Transaction.writable { writable := true, buckets := h.database.buckets } = true := rfl
    have hcounted := work_counted hh.sound action caller name msg hwritable
    obtain ⟨hout, hdone⟩ := work_memory hh.sound action caller name msg hwritable
    simp only [invoke, hc, hh.sound, hstart, Bool.false_eq_true, if_false, reduceCtorEq]
    generalize h.work action caller name msg { writable := true, buckets := h.database.buckets } = w
      at hcounted hout hdone
    generalize h.service.invoke Memory.store action name _ caller msg _ = r at hout hdone
    cases hr : r.outcome with
    | error e =>
      rw [hr] at hout
      simp only [hout, Outcome.map, reduceCtorEq, exists_false, iff_false] at hcounted
      simp [Database.finish, hout, Outcome.map, accepted_count, hcounted, committedCalls]
    | abort a =>
      rw [hr] at hout
      simp only [hout, Outcome.map, reduceCtorEq, exists_false, iff_false] at hcounted
      simp [Database.finish, hout, Outcome.map, accepted_count, hcounted, committedCalls]
    | ok res =>
      obtain ⟨-, -, hmark⟩ := hdone res hr
      rw [hr] at hout
      have hyes : w.counted = some .accepted := hcounted.2 ⟨_, hout⟩
      simp only [hout, Outcome.map, Database.finish, hmark, hyes, Bool.true_and, ne_eq, reduceCtorEq, not_false_eq_true,
        decide_true, if_true]
      exact accepted_count h action _

/-- A query counts no state-changing call. -/
theorem query_accepted (h : Host) (name : Bytes) (msg : Payload) :
    (h.query name msg).host.metrics.accepted = h.metrics.accepted := by
  unfold query
  split
  · rfl
  cases h.database.start false with
  | error e => rfl
  | ok tx =>
    simp only
    cases (h.service.query (Transaction.store stateBucket).toSource name (h.env (readHeight tx)) msg tx).counted with
    | none => rfl
    | some s => exact Metrics.accepted_record_query _ s

/-! ## Between two states of a host -/

/-- The height that a host has reached since an earlier state of it, as a number without bound. -/
def reached (h₀ h : Host) : Nat :=
  (keptHeight h₀.database).toNat + (h.metrics.accepted - h₀.metrics.accepted)

theorem reached_query (h₀ h : Host) (name : Bytes) (msg : Payload) :
    h₀.reached (h.query name msg).host = h₀.reached h := by
  rw [reached, query_accepted, reached]

/-- The second host works, and its height has grown since the first by the calls that were accepted
in between. -/
structure Follows (h₀ h : Host) : Prop where
  works : h.Works
  accepted : h₀.metrics.accepted ≤ h.metrics.accepted
  height : keptHeight h.database = UInt64.ofNat (h₀.reached h)

theorem Follows.refl {h : Host} (hh : h.Works) : h.Follows h :=
  ⟨hh, Nat.le_refl _, by simp [reached]⟩

theorem Follows.congr {h₀ h h' : Host} (hf : h₀.Follows h) (hb : h'.breakdown = h.breakdown)
    (hd : h'.database = h.database) (hm : h'.metrics.accepted = h.metrics.accepted) : h₀.Follows h' :=
  ⟨⟨hb ▸ hf.works.sound, hd ▸ hf.works.isOpen⟩, hm ▸ hf.accepted, by rw [reached, hd, hm]; exact hf.height⟩

theorem Follows.query {h₀ h : Host} (hf : h₀.Follows h) (name : Bytes) (msg : Payload) :
    h₀.Follows (h.query name msg).host := by
  have hm := h.query_accepted name msg
  obtain ⟨metrics, hx⟩ := h.query_host name msg
  rw [hx] at hm ⊢
  exact hf.congr rfl rfl hm

theorem Follows.reached_invoke {h₀ h : Host} (hf : h₀.Follows h) (action : Action) (caller : Address) (name : Bytes)
    (msg : Payload) :
    h₀.reached (h.invoke action caller name msg).host =
      h₀.reached h + committedCalls (h.invoke action caller name msg).outcome := by
  have haccepted := invoke_accepted hf.works action caller name msg
  have hle := hf.accepted
  unfold reached
  omega

/-- What a call does to the height, for a host that follows an earlier one: it is the event's height
and one more than before if the call is committed, and otherwise the database is as before. -/
theorem Follows.invoke {h₀ h : Host} (hf : h₀.Follows h) (action : Action) (caller : Address) (name : Bytes)
    (msg : Payload) :
    h₀.Follows (h.invoke action caller name msg).host ∧
      match (h.invoke action caller name msg).outcome with
      | .ok e => e.height = UInt64.ofNat (h₀.reached h + 1) ∧
          h₀.reached (h.invoke action caller name msg).host = h₀.reached h + 1
      | _ => (h.invoke action caller name msg).host.database = h.database ∧
          (h.invoke action caller name msg).host.metrics.accepted = h.metrics.accepted := by
  have haccepted := invoke_accepted hf.works action caller name msg
  have hwork : (h.invoke action caller name msg).host.breakdown = h.breakdown := by
    obtain ⟨database, metrics, hx⟩ := h.invoke_host action caller name msg
    rw [hx]
  have hstays : (h.invoke action caller name msg).host.database = h.database →
      committedCalls (h.invoke action caller name msg).outcome = 0 →
        h₀.Follows (h.invoke action caller name msg).host ∧
          (h.invoke action caller name msg).host.metrics.accepted = h.metrics.accepted := by
    intro hd hnone
    rw [hnone] at haccepted
    exact ⟨hf.congr hwork hd haccepted, haccepted⟩
  cases hc : caller.isEmpty with
  | true =>
    have hx := invoke_no_caller h action hc name msg
    obtain ⟨hfollows, hm⟩ := hstays (by rw [hx]) (by rw [hx]; rfl)
    refine ⟨hfollows, ?_⟩
    rw [hx] at hm ⊢
    exact ⟨rfl, hm⟩
  | false =>
    obtain ⟨hout, hleft⟩ := invoke_memory hf.works action hc name msg
    generalize h.service.invoke Memory.store action name (h.env (keptHeight h.database + 1)) caller msg
      (contents h.database) = r at hout hleft
    generalize h.invoke action caller name msg = x at haccepted hwork hstays hout hleft ⊢
    cases hr : r.outcome with
    | error e =>
      rw [hr] at hout hleft
      obtain ⟨hfollows, hm⟩ := hstays hleft (by rw [hout]; rfl)
      rw [hout]
      exact ⟨hfollows, hleft, hm⟩
    | abort a =>
      rw [hr] at hout hleft
      obtain ⟨hfollows, hm⟩ := hstays hleft (by rw [hout]; rfl)
      rw [hout]
      exact ⟨hfollows, hleft, hm⟩
    | ok res =>
      rw [hr] at hout hleft
      obtain ⟨hheight, hopen, -⟩ := hleft
      have hone : x.host.metrics.accepted = h.metrics.accepted + 1 := by
        rw [haccepted, hout]
        rfl
      have hle := hf.accepted
      have hreached : h₀.reached x.host = h₀.reached h + 1 := by
        unfold reached
        omega
      have hnext : keptHeight h.database + 1 = UInt64.ofNat (h₀.reached h + 1) := by
        rw [hf.height, UInt64.ofNat_add]
        rfl
      rw [hout]
      refine ⟨⟨⟨hwork.trans hf.works.sound, hopen⟩, by omega, ?_⟩, hnext, hreached⟩
      rw [hheight, hnext, hreached]

theorem Follows.committed {h₀ h : Host} (hf : h₀.Follows h) {action : Action} {caller : Address} {name : Bytes}
    {msg : Payload} {e : Event} (he : (h.invoke action caller name msg).outcome = .ok e) :
    e.height = UInt64.ofNat (h₀.reached h + 1) ∧
      h₀.reached (h.invoke action caller name msg).host = h₀.reached h + 1 := by
  obtain ⟨-, hinvoke⟩ := hf.invoke action caller name msg
  rw [he] at hinvoke
  exact hinvoke

end Host

end CounterLedger
