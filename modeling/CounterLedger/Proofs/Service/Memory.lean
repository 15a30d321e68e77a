/-
The service on stores that answer alike, and on a memory. An invocation only ever uses namespaced
keys, so its outcome, its log and what it counts are the same on any two stores that answer alike
on those. On a memory an invocation is plain: the marker decides whether the contract runs, the
contract runs in its namespace, and the memory changes only if all of it succeeds.
-/
import CounterLedger.Proofs.Store.Memory
import CounterLedger.Service

namespace CounterLedger

variable {α σ τ : Type}

/-- The program of an entry point that changes state. -/
def Contract.program (c : Contract) (action : Action) (env : Env) (sender : Address) (msg : Payload) :
    Program Response :=
  match action with
  | .instantiate => c.instantiate env sender msg
  | .execute => c.execute env sender msg

namespace Service

/-! ## Reports -/

@[simp] theorem report_outcome (entry : Entry) (name : Bytes) (env : Env) (sender : Address)
    (o : Outcome α) (st : σ) (logs : List Log.Entry) :
    (report entry name env sender o st logs).outcome = o := by
  cases o <;> rfl

@[simp] theorem report_state (entry : Entry) (name : Bytes) (env : Env) (sender : Address)
    (o : Outcome α) (st : σ) (logs : List Log.Entry) :
    (report entry name env sender o st logs).state = st := by
  cases o <;> rfl

theorem invoke_eq (sv : Service) (s : Store σ) (action : Action) (name : Bytes) (env : Env) (sender : Address)
    (msg : Payload) (st : σ) :
    sv.invoke s action name env sender msg st =
      match sv.find? name with
      | none => { outcome := .error (.fault (.unknownContract name)), state := st }
      | some c =>
        let ran := (body c action name env sender msg).run (Overlay.store s.toSource) { base := st }
        let settled := s.settle (ran.outcome, ran.state)
        report action.entry name env sender settled.1 settled.2 ran.logs := rfl

/-! ## Invocations on stores that answer alike -/

theorem isInstantiated_uses {keys : Bytes → Prop} (name : Bytes) (h : keys (markerKey name)) :
    (isInstantiated name).Uses keys :=
  Reading.uses_bind (Reading.uses_within _ ⟨h, fun _ => trivial⟩) fun _ => trivial

/-- The work of an invocation uses the marker of its contract and keys of the contract's namespace. -/
theorem body_uses {keys : Bytes → Prop} {name : Bytes} (hm : keys (markerKey name))
    (c : Contract) (action : Action) (env : Env) (sender : Address) (msg : Payload)
    (hc : ((c.program action env sender msg).scoped name).Uses keys) :
    (body c action name env sender msg).Uses keys := by
  refine Program.uses_bind (Reading.uses_toProgram (isInstantiated_uses name hm)) fun found => ?_
  cases action with
  | instantiate =>
    cases found with
    | true => trivial
    | false =>
      refine Program.uses_bind hc fun res => ?_
      exact Program.uses_bind (Program.uses_within _ (Program.uses_write hm _)) fun _ => trivial
  | execute =>
    cases found with
    | true => exact hc
    | false => trivial

section Alike

variable {s : Store σ} {t : Store τ} {keys : Bytes → Prop} {R : σ → τ → Prop}

/-- An invocation on stores that answer alike on all namespaced keys ends alike. -/
theorem invoke_alike (h : s.Alike t keys R) (hk : ∀ space k, keys (Namespace.key space k))
    (sv : Service) (action : Action) (name : Bytes) (env : Env) (sender : Address) (msg : Payload)
    {st : σ} {tt : τ} (hR : R st tt) :
    let x := sv.invoke s action name env sender msg st
    let y := sv.invoke t action name env sender msg tt
    x.outcome = y.outcome ∧ x.logs = y.logs ∧ x.counted = y.counted ∧ R x.state y.state := by
  simp only [invoke_eq]
  cases sv.find? name with
  | none => exact ⟨rfl, rfl, rfl, hR⟩
  | some c =>
    have hu : (body c action name env sender msg).Uses keys :=
      body_uses (hk _ _) c action env sender msg (Program.uses_scoped (hk name) _)
    have h0 : Overlay.Rel keys R { base := st } { base := tt } :=
      ⟨rfl, fun _ he => absurd he List.not_mem_nil, hR⟩
    obtain ⟨ho, hl, hO⟩ := Program.run_alike (Overlay.store_alike h) hu h0
    obtain ⟨hs, hR'⟩ := Store.settle_alike h
      ((body c action name env sender msg).run (Overlay.store t.toSource) { base := tt }).outcome hO
    simp only [ho, hl]
    generalize s.settle _ = x at hs hR'
    generalize t.settle _ = y at hs hR'
    obtain ⟨o, st'⟩ := x
    obtain ⟨o', tt'⟩ := y
    simp only at hs hR'
    subst hs
    cases o <;> exact ⟨rfl, rfl, rfl, hR'⟩

theorem query_alike (h : s.Alike t keys R) (hk : ∀ space k, keys (Namespace.key space k))
    (sv : Service) (name : Bytes) (env : Env) (msg : Payload) {st : σ} {tt : τ} (hR : R st tt) :
    let x := sv.query s.toSource name env msg st
    let y := sv.query t.toSource name env msg tt
    x.outcome = y.outcome ∧ x.logs = y.logs ∧ x.counted = y.counted ∧ R x.state y.state := by
  simp only [query]
  cases sv.find? name with
  | none => exact ⟨rfl, rfl, rfl, hR⟩
  | some c =>
    obtain ⟨ho, hR'⟩ := Reading.run_alike h (Reading.uses_scoped (hk name) (c.query env msg)) hR
    simp only [ho]
    cases (((c.query env msg).scoped name).run t.toSource tt).1 <;> exact ⟨rfl, rfl, rfl, hR'⟩

end Alike

/-! ## Invocations on a memory -/

theorem isInstantiated_memory (name : Bytes) (m : Memory) :
    (isInstantiated name).run Memory.store.toSource m = (.ok (m (markerKey name)).isSome, m) := rfl

theorem invoke_unknown {sv : Service} {name : Bytes} (h : sv.find? name = none) (s : Store σ)
    (action : Action) (env : Env) (sender : Address) (msg : Payload) (st : σ) :
    sv.invoke s action name env sender msg st =
      { outcome := .error (.fault (.unknownContract name)), state := st } := by
  rw [invoke_eq, h]

theorem ne_markerSpace {sv : Service} (hsv : sv.find? markerSpace = none) {name : Bytes} {c : Contract}
    (h : sv.find? name = some c) : name ≠ markerSpace := by
  rintro rfl
  rw [hsv] at h
  cases h

/-- An invocation on a memory: the work runs on the memory itself, and what it leaves is kept only
if it succeeds. -/
theorem invoke_memory {sv : Service} {name : Bytes} {c : Contract} (h : sv.find? name = some c)
    (action : Action) (env : Env) (sender : Address) (msg : Payload) (m : Memory) :
    sv.invoke Memory.store action name env sender msg m =
      let ran := (body c action name env sender msg).run Memory.store m
      report action.entry name env sender ran.outcome (ran.kept m) ran.logs := by
  obtain ⟨hs, hl⟩ := Memory.stage_eq (body c action name env sender msg) m
  simp only [invoke_eq, h]
  rw [hs, hl]

/-- What a first instantiation leaves when the contract has run: the marker, if there is a
response. -/
def marked (name : Bytes) (r : Program.Ran Response Memory) : Program.Ran Response Memory :=
  match r.outcome with
  | .ok _ => { r with state := r.state.put (markerKey name) (some [1]) }
  | _ => r

/-- The work of an invocation on a memory. The marker decides: a marked contract is not
instantiated again, and one that is not marked is not executed. -/
theorem body_memory (c : Contract) (action : Action) (name : Bytes) (env : Env) (sender : Address)
    (msg : Payload) (m : Memory) :
    (body c action name env sender msg).run Memory.store m =
      match action, (m (markerKey name)).isSome with
      | .instantiate, true => { outcome := .error (.fault (.alreadyInstantiated name)), state := m }
      | .instantiate, false => marked name (((c.instantiate env sender msg).scoped name).run Memory.store m)
      | .execute, true => ((c.execute env sender msg).scoped name).run Memory.store m
      | .execute, false => { outcome := .error (.fault (.notInstantiated name)), state := m } := by
  unfold body
  rw [Program.run_bind]
  show Program.Ran.andThen _ ((isInstantiated name).toProgram.run Memory.store m) _ = _
  rw [Reading.run_toProgram, isInstantiated_memory]
  cases action with
  | execute => cases (m (markerKey name)).isSome <;> rfl
  | instantiate =>
    cases (m (markerKey name)).isSome with
    | true => rfl
    | false =>
      show Program.run _ (((c.instantiate env sender msg).scoped name) >>= _) m = _
      rw [Program.run_bind]
      generalize ((c.instantiate env sender msg).scoped name).run Memory.store m = r
      obtain ⟨o, st, logs⟩ := r
      cases o with
      | ok res => simp [Program.Ran.andThen, marked, Program.write, Program.within, Program.run, bind,
          Program.bind, pure, Memory.store, Outcome.ofExcept, Outcome.mapError]
      | error e => rfl
      | abort reason => rfl

theorem marked_outcome (name : Bytes) (r : Program.Ran Response Memory) : (marked name r).outcome = r.outcome := by
  unfold marked
  split <;> rfl

/-- The response of an invocation is what the contract's own program came to. -/
theorem program_of_invoke_memory {sv : Service} {action : Action} {name : Bytes} {env : Env} {sender : Address}
    {msg : Payload} {m : Memory} {res : Response}
    (h : (sv.invoke Memory.store action name env sender msg m).outcome = .ok res) :
    ∃ c, sv.find? name = some c ∧
      (((c.program action env sender msg).scoped name).run Memory.store m).outcome = .ok res := by
  cases hc : sv.find? name with
  | none =>
    rw [invoke_unknown hc] at h
    cases h
  | some c =>
    refine ⟨c, rfl, ?_⟩
    rw [invoke_memory hc, report_outcome, body_memory] at h
    cases action <;> cases hfound : (m (markerKey name)).isSome <;> simp only [hfound, reduceCtorEq] at h
    · rwa [marked_outcome] at h
    · exact h

end Service

end CounterLedger
