/-
Runs of a service: calls served one after the other on one store, with the keys that the
contracts use on the way. A run on a store that is faithful to its contents is the run on these
contents: the same replies, and the same keys used.
-/
import CounterLedger.Proofs.Namespace
import CounterLedger.Proofs.Service.Memory
import CounterLedger.Proofs.Transcript

namespace CounterLedger

variable {α σ τ : Type}

namespace Service

/-- A call to a service. -/
inductive Call where
  | invoke (action : Action) (name : Bytes) (env : Env) (sender : Address) (msg : Payload)
  | query (name : Bytes) (env : Env) (msg : Payload)

/-- What comes back from a call. -/
inductive Reply where
  | response (outcome : Outcome Response)
  | answer (outcome : Outcome Payload)

/-- A call with its reply. -/
structure Exchange where
  call : Call
  reply : Reply

/-- Whether the exchange is a state-changing call of that kind and contract that succeeded. -/
def Exchange.commits (action : Action) (name : Bytes) : Exchange → Bool
  | ⟨.invoke a n _ _ _, .response (.ok _)⟩ => a = action && n = name
  | _ => false

/-- Serves a call on a store. -/
def serve (sv : Service) (s : Store σ) (call : Call) (st : σ) : Exchange × σ :=
  match call with
  | .invoke action name env sender msg =>
    let r := sv.invoke s action name env sender msg st
    (⟨call, .response r.outcome⟩, r.state)
  | .query name env msg =>
    let r := sv.query s.toSource name env msg st
    (⟨call, .answer r.outcome⟩, r.state)

/-! ## Keys used -/

/-- The keys of its namespace that a contract uses during an invocation, if its marker lets it
run. -/
def ownKeys (s : Store σ) (c : Contract) (action : Action) (name : Bytes) (env : Env) (sender : Address)
    (msg : Payload) (st : σ) : List Bytes :=
  let r := (isInstantiated name).run (Overlay.store s.toSource).toSource { base := st }
  match r.1 with
  | .ok found =>
    if found = decide (action = .execute) then
      (c.program action env sender msg).keysUsed ((Overlay.store s.toSource).scoped name) r.2
    else []
  | _ => []

/-- The namespaced keys that a call may change: the marker of its contract, and the keys that the
contract uses. A query changes none. -/
def keysUsed (sv : Service) (s : Store σ) (call : Call) (st : σ) : List (Bytes × Bytes) :=
  match call with
  | .invoke action name env sender msg =>
    match sv.find? name with
    | none => []
    | some c => (markerSpace, name) :: (ownKeys s c action name env sender msg st).map fun k => (name, k)
  | .query _ _ _ => []

/-- The namespaced keys that the calls of a run may change. -/
def runKeys (sv : Service) (s : Store σ) : List Call → σ → List (Bytes × Bytes)
  | [], _ => []
  | call :: rest, st => sv.keysUsed s call st ++ sv.runKeys s rest (sv.serve s call st).2

end Service

/-! ## Runs on stores that answer alike -/

theorem Program.keysUsed_alike {s : Store σ} {t : Store τ} {keys : Bytes → Prop} {R : σ → τ → Prop}
    (h : s.Alike t keys R) {p : Program α} (hp : p.Uses keys) {st : σ} {tt : τ} (hR : R st tt) :
    p.keysUsed s st = p.keysUsed t tt := by
  induction p generalizing st tt with
  | done o => rfl
  | get k next ih =>
    obtain ⟨hv, hR'⟩ := h.get hp.1 hR
    simp only [Program.keysUsed]
    rw [hv, ih _ (hp.2 _) hR']
  | set k v next ih =>
    obtain ⟨hr, hR'⟩ := h.set hp.1 hR
    simp only [Program.keysUsed]
    rw [hr, ih _ (hp.2 _) hR']
  | delete k next ih =>
    obtain ⟨hr, hR'⟩ := h.delete hp.1 hR
    simp only [Program.keysUsed]
    rw [hr, ih _ (hp.2 _) hR']
  | log e next ih => exact ih hp hR

theorem Store.scoped_alike {s : Store σ} {t : Store τ} {keys : Bytes → Prop} {R : σ → τ → Prop}
    (h : s.Alike t keys R) (space : Bytes) (hk : ∀ k, keys (Namespace.key space k)) :
    (s.scoped space).Alike (t.scoped space) (fun _ => True) R where
  get := fun _ hR => h.get (hk _) hR
  set := fun _ hR => h.set (hk _) hR
  delete := fun _ hR => h.delete (hk _) hR

namespace Service

section Alike

variable {s : Store σ} {t : Store τ} {keys : Bytes → Prop} {R : σ → τ → Prop}

theorem serve_alike (h : s.Alike t keys R) (hk : ∀ space k, keys (Namespace.key space k))
    (sv : Service) (call : Call) {st : σ} {tt : τ} (hR : R st tt) :
    (sv.serve s call st).1 = (sv.serve t call tt).1 ∧ R (sv.serve s call st).2 (sv.serve t call tt).2 := by
  cases call with
  | invoke action name env sender msg =>
    obtain ⟨ho, -, -, hR'⟩ := invoke_alike h hk sv action name env sender msg hR
    exact ⟨by simp only [serve, ho], hR'⟩
  | query name env msg =>
    obtain ⟨ho, -, -, hR'⟩ := query_alike h hk sv name env msg hR
    exact ⟨by simp only [serve, ho], hR'⟩

theorem ownKeys_alike (h : s.Alike t keys R) (hk : ∀ space k, keys (Namespace.key space k))
    (c : Contract) (action : Action) (name : Bytes) (env : Env) (sender : Address) (msg : Payload)
    {st : σ} {tt : τ} (hR : R st tt) :
    ownKeys s c action name env sender msg st = ownKeys t c action name env sender msg tt := by
  have h0 : Overlay.Rel keys R { base := st } { base := tt } :=
    ⟨rfl, fun _ he => absurd he List.not_mem_nil, hR⟩
  have ho := Overlay.store_alike h
  obtain ⟨hv, hO⟩ := Reading.run_alike ho (isInstantiated_uses name (hk _ _)) h0
  have hu := Program.keysUsed_alike (Store.scoped_alike ho name (hk name))
    (c.program action env sender msg).uses_true hO
  simp only [ownKeys]
  rw [hv, hu]

theorem keysUsed_alike (h : s.Alike t keys R) (hk : ∀ space k, keys (Namespace.key space k))
    (sv : Service) (call : Call) {st : σ} {tt : τ} (hR : R st tt) :
    sv.keysUsed s call st = sv.keysUsed t call tt := by
  cases call with
  | query name env msg => rfl
  | invoke action name env sender msg =>
    simp only [keysUsed]
    cases sv.find? name with
    | none => rfl
    | some c => simp only [ownKeys_alike h hk c action name env sender msg hR]

/-- Runs on stores that answer alike have the same exchanges and use the same keys. -/
theorem run_alike (h : s.Alike t keys R) (hk : ∀ space k, keys (Namespace.key space k))
    (sv : Service) (calls : List Call) {st : σ} {tt : τ} (hR : R st tt) :
    (transcript (sv.serve s) calls st).1 = (transcript (sv.serve t) calls tt).1 ∧
      sv.runKeys s calls st = sv.runKeys t calls tt ∧
      R (transcript (sv.serve s) calls st).2 (transcript (sv.serve t) calls tt).2 := by
  induction calls generalizing st tt with
  | nil => exact ⟨rfl, rfl, hR⟩
  | cons call rest ih =>
    obtain ⟨hx, hR'⟩ := serve_alike h hk sv call hR
    obtain ⟨hxs, hks, hR''⟩ := ih hR'
    refine ⟨?_, ?_, hR''⟩
    · simp only [transcript, hx, hxs]
    · simp only [runKeys, keysUsed_alike h hk sv call hR, hks]

end Alike

/-- On a memory a contract uses the keys that its program uses there in its namespace. -/
theorem ownKeys_memory (c : Contract) (action : Action) (name : Bytes) (env : Env) (sender : Address)
    (msg : Payload) (m : Memory) :
    ownKeys Memory.store c action name env sender msg m =
      if (m (markerKey name)).isSome = decide (action = .execute) then
        (c.program action env sender msg).keysUsed (Memory.store.scoped name) m
      else [] := by
  have h0 : Overlay.base { base := m } = m ∧ Overlay.contents { base := m } = m := ⟨rfl, rfl⟩
  have ho := Overlay.memory_faithful m
  obtain ⟨hv, hO⟩ := Reading.run_alike ho (isInstantiated_uses name trivial) h0
  have hu := Program.keysUsed_alike (Store.scoped_alike ho name fun _ => trivial)
    (c.program action env sender msg).uses_true hO
  rw [isInstantiated_memory] at hv hu
  simp only [ownKeys]
  rw [hv, hu]

end Service

end CounterLedger
