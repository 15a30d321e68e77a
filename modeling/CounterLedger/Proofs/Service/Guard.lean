/-
The guard of instantiation over whole runs of a service. Markers lie in the same store as the data
of the contracts, in a namespace of their own. As long as no contract is registered under the name
of that namespace, no contract reaches a marker: each contract is instantiated at most once, is
executed only after that, and is marked exactly when it has been instantiated. A contract that is
registered under that name owns all markers, and nothing is guarded.
-/
import CounterLedger.Proofs.Service.Run

namespace CounterLedger

variable {σ : Type}

namespace Service

/-! ## One call -/

/-- What one call does to the marker of a name, and what the marker says about the call. The name
is told apart from all keys that the call uses. -/
structure MarkerStep (sv : Service) (call : Call) (m : Memory) (n : Bytes) : Prop where
  after : ((sv.serve Memory.store call m).2 (markerKey n)).isSome =
    ((m (markerKey n)).isSome || (sv.serve Memory.store call m).1.commits .instantiate n)
  instantiated : (sv.serve Memory.store call m).1.commits .instantiate n = true →
    (m (markerKey n)).isSome = false
  executed : (sv.serve Memory.store call m).1.commits .execute n = true →
    (m (markerKey n)).isSome = true

/-- A program in a namespace that is not the one of the markers leaves the markers alone. -/
theorem scoped_marker {name n : Bytes} (hname : name ≠ markerSpace) {p : Program Response} {m : Memory}
    (hd : Namespace.Distinct
      ((markerSpace, n) :: (p.keysUsed (Memory.store.scoped name) m).map fun k => (name, k))) :
    ((p.scoped name).run Memory.store m).state (markerKey n) = m (markerKey n) := by
  apply Program.run_frame
  rw [Program.keysUsed_scoped]
  intro h
  obtain ⟨k, hk, he⟩ := List.mem_map.1 h
  have hmem : (name, k) ∈ (markerSpace, n) :: (p.keysUsed (Memory.store.scoped name) m).map fun k => (name, k) :=
    List.mem_cons_of_mem _ (List.mem_map.2 ⟨k, hk, rfl⟩)
  exact hname (hd.key_inj hmem List.mem_cons_self he).1

theorem serve_memory {sv : Service} {name : Bytes} {c : Contract} (h : sv.find? name = some c)
    (action : Action) (env : Env) (sender : Address) (msg : Payload) (m : Memory) :
    sv.serve Memory.store (.invoke action name env sender msg) m =
      let ran := (body c action name env sender msg).run Memory.store m
      (⟨.invoke action name env sender msg, .response ran.outcome⟩, ran.kept m) := by
  simp only [serve]
  rw [invoke_memory h]
  simp only [report_outcome, report_state]

theorem commits_response (a action : Action) (name n : Bytes) (env : Env) (sender : Address) (msg : Payload)
    (res : Response) :
    Exchange.commits action n ⟨.invoke a name env sender msg, .response (.ok res)⟩ =
      (decide (a = action) && decide (name = n)) := rfl

/-- A call that leaves the memory as it is and does not succeed. -/
theorem MarkerStep.idle {sv : Service} {call : Call} {m : Memory} {n : Bytes}
    (hs : (sv.serve Memory.store call m).2 = m)
    (hc : ∀ action, (sv.serve Memory.store call m).1.commits action n = false) : MarkerStep sv call m n := by
  constructor
  · rw [hs, hc, Bool.or_false]
  · intro h; rw [hc] at h; cases h
  · intro h; rw [hc] at h; cases h

theorem markerStep_instantiate {sv : Service} {name : Bytes} {c : Contract} (h : sv.find? name = some c)
    (env : Env) (sender : Address) (msg : Payload) {m : Memory} {n : Bytes}
    (hother : n ≠ name → markerKey n ≠ markerKey name)
    (hframe : (m (markerKey name)).isSome = false →
      (((c.instantiate env sender msg).scoped name).run Memory.store m).state (markerKey n) = m (markerKey n)) :
    MarkerStep sv (.invoke .instantiate name env sender msg) m n := by
  have hserve := serve_memory h .instantiate env sender msg m
  rw [body_memory] at hserve
  cases hm : (m (markerKey name)).isSome with
  | true =>
    rw [hm] at hserve
    exact .idle (by rw [hserve]; rfl) fun _ => by rw [hserve]; rfl
  | false =>
    have hf := hframe hm
    rw [hm] at hserve
    generalize ((c.instantiate env sender msg).scoped name).run Memory.store m = ran at hf hserve
    obtain ⟨o, st, logs⟩ := ran
    cases o with
    | error e => exact .idle (by rw [hserve]; rfl) fun _ => by rw [hserve]; rfl
    | abort r => exact .idle (by rw [hserve]; rfl) fun _ => by rw [hserve]; rfl
    | ok res =>
      simp only [marked, Program.Ran.kept] at hf hserve
      constructor
      · rw [hserve, commits_response]
        by_cases hn : n = name
        · subst hn; simp
        · simp only
          rw [Memory.put_other _ _ (hother hn), hf]
          simp [Ne.symm hn]
      · rw [hserve, commits_response]
        intro hc
        obtain rfl : name = n := by simpa using hc
        exact hm
      · rw [hserve, commits_response]
        intro hc
        cases hc

theorem markerStep_execute {sv : Service} {name : Bytes} {c : Contract} (h : sv.find? name = some c)
    (env : Env) (sender : Address) (msg : Payload) {m : Memory} {n : Bytes}
    (hframe : (m (markerKey name)).isSome = true →
      (((c.execute env sender msg).scoped name).run Memory.store m).state (markerKey n) = m (markerKey n)) :
    MarkerStep sv (.invoke .execute name env sender msg) m n := by
  have hserve := serve_memory h .execute env sender msg m
  rw [body_memory] at hserve
  cases hm : (m (markerKey name)).isSome with
  | false =>
    rw [hm] at hserve
    exact .idle (by rw [hserve]; rfl) fun _ => by rw [hserve]; rfl
  | true =>
    have hf := hframe hm
    rw [hm] at hserve
    generalize ((c.execute env sender msg).scoped name).run Memory.store m = ran at hf hserve
    obtain ⟨o, st, logs⟩ := ran
    cases o with
    | error e => exact .idle (by rw [hserve]; rfl) fun _ => by rw [hserve]; rfl
    | abort r => exact .idle (by rw [hserve]; rfl) fun _ => by rw [hserve]; rfl
    | ok res =>
      simp only [Program.Ran.kept] at hf hserve
      constructor
      · rw [hserve, commits_response]
        simp [hf]
      · rw [hserve, commits_response]
        intro hc
        cases hc
      · rw [hserve, commits_response]
        intro hc
        obtain rfl : name = n := by simpa using hc
        exact hm

/-- What one call does to the markers, when no contract is in their namespace. -/
theorem markerStep {sv : Service} (hsv : sv.find? markerSpace = none) (call : Call) {m : Memory} {n : Bytes}
    (hd : Namespace.Distinct ((markerSpace, n) :: sv.keysUsed Memory.store call m)) :
    MarkerStep sv call m n := by
  cases call with
  | query name env msg =>
    refine .idle ?_ fun _ => rfl
    show (sv.query Memory.store.toSource name env msg m).state = m
    unfold query
    cases sv.find? name with
    | none => rfl
    | some c => simp only [report_state]; exact Reading.run_memory_state _ m
  | invoke action name env sender msg =>
    cases h : sv.find? name with
    | none =>
      exact .idle (by simp only [serve, invoke_unknown h]) fun _ => by simp only [serve, invoke_unknown h]; rfl
    | some c =>
      have hname := ne_markerSpace hsv h
      simp only [keysUsed, h, ownKeys_memory] at hd
      have hother : n ≠ name → markerKey n ≠ markerKey name := fun hne he =>
        hne (hd.key_inj List.mem_cons_self (List.mem_cons_of_mem _ List.mem_cons_self) he).2
      -- the keys of the program are known to be told apart only if the marker lets it run
      have hframe : (m (markerKey name)).isSome = decide (action = .execute) →
          (((c.program action env sender msg).scoped name).run Memory.store m).state (markerKey n) =
            m (markerKey n) := by
        intro hrun
        rw [if_pos hrun] at hd
        refine scoped_marker hname (hd.mono fun p hp => ?_)
        rcases List.mem_cons.1 hp with rfl | hp
        · exact List.mem_cons_self
        · exact List.mem_cons_of_mem _ (List.mem_cons_of_mem _ hp)
      cases action with
      | instantiate => exact markerStep_instantiate h env sender msg hother hframe
      | execute => exact markerStep_execute h env sender msg hframe

/-! ## Runs -/

/-- Over a run that starts with the marker of a name as it is in `m`: when the marker is there
afterwards, how often the name was instantiated, and what came before each of its executions. -/
structure MarkerRun (sv : Service) (calls : List Call) (m : Memory) (n : Bytes) : Prop where
  after : ((transcript (sv.serve Memory.store) calls m).2 (markerKey n)).isSome =
    ((m (markerKey n)).isSome ||
      (transcript (sv.serve Memory.store) calls m).1.any (·.commits .instantiate n))
  once : (transcript (sv.serve Memory.store) calls m).1.countP (·.commits .instantiate n) +
    (m (markerKey n)).isSome.toNat ≤ 1
  executed : ∀ pre x post, (transcript (sv.serve Memory.store) calls m).1 = pre ++ x :: post →
    x.commits .execute n = true → ((m (markerKey n)).isSome || pre.any (·.commits .instantiate n)) = true

theorem markerRun {sv : Service} (hsv : sv.find? markerSpace = none) {n : Bytes} :
    ∀ {calls : List Call} {m : Memory},
      Namespace.Distinct ((markerSpace, n) :: sv.runKeys Memory.store calls m) → MarkerRun sv calls m n
  | [], m, _ => by
    refine ⟨by simp [transcript], by cases (m (markerKey n)).isSome <;> simp [transcript], ?_⟩
    intro pre x post h
    simp [transcript] at h
  | call :: rest, m, hd => by
    -- the marker at the start is part of the statement, so the rest may start from any memory
    obtain ⟨hcall, hrest⟩ := hd.split
    obtain ⟨hafter, hinst, hexec⟩ := markerStep hsv call hcall
    have ih := markerRun hsv hrest
    refine ⟨?_, ?_, ?_⟩
    · simp only [transcript, List.any_cons]
      rw [ih.after, hafter, Bool.or_assoc]
    · have h1 := ih.once
      rw [hafter] at h1
      simp only [transcript, List.countP_cons]
      cases hc : (sv.serve Memory.store call m).1.commits .instantiate n with
      | false => simpa [hc] using h1
      | true =>
        rw [hinst hc, hc] at h1
        rw [hinst hc]
        simpa using h1
    · intro pre x post hsplit hx
      simp only [transcript] at hsplit
      cases pre with
      | nil =>
        obtain ⟨rfl, -⟩ := List.cons.inj hsplit
        rw [hexec hx]
        rfl
      | cons y pre =>
        obtain ⟨rfl, htail⟩ := List.cons.inj hsplit
        have hpre := ih.executed pre x post htail hx
        rw [hafter, Bool.or_assoc] at hpre
        exact hpre

/-- A successful call uses the marker of its contract. -/
theorem marker_mem_keysUsed {sv : Service} {call : Call} {m : Memory} {action : Action} {n : Bytes}
    (h : (sv.serve Memory.store call m).1.commits action n = true) :
    (markerSpace, n) ∈ sv.keysUsed Memory.store call m := by
  cases call with
  | query name env msg => cases h
  | invoke a name env sender msg =>
    cases hf : sv.find? name with
    | none =>
      simp only [serve, invoke_unknown hf] at h
      cases h
    | some c =>
      have hn : name = n := by
        simp only [serve] at h
        cases ho : (sv.invoke Memory.store a name env sender msg m).outcome with
        | ok res =>
          rw [ho, commits_response] at h
          simp only [Bool.and_eq_true, decide_eq_true_eq] at h
          exact h.2
        | error e => rw [ho] at h; cases h
        | abort r => rw [ho] at h; cases h
      subst hn
      simp only [keysUsed, hf]
      exact List.mem_cons_self

theorem marker_mem_runKeys {sv : Service} {action : Action} {n : Bytes} :
    ∀ {calls : List Call} {m : Memory} {x : Exchange},
      x ∈ (transcript (sv.serve Memory.store) calls m).1 → x.commits action n = true →
      (markerSpace, n) ∈ sv.runKeys Memory.store calls m
  | [], _, _, hx, _ => absurd hx List.not_mem_nil
  | call :: rest, m, x, hx, hc => by
    rcases List.mem_cons.1 hx with rfl | hx
    · exact List.mem_append_left _ (marker_mem_keysUsed hc)
    · exact List.mem_append_right _ (marker_mem_runKeys hx hc)

/-! ## The guard -/

/-- The names under which contracts are registered. -/
def Registers (sv : Service) (names : List Bytes) : Prop := ∀ n, (sv.find? n).isSome = true ↔ n ∈ names

/-- The guard of instantiation for a run from a state: what the exchanges and the markers have to
do with each other, and that no contract has a hand in a marker. -/
structure Guarded (sv : Service) (s : Store σ) (calls : List Call) (st : σ) : Prop where
  /-- A contract is instantiated at most once. -/
  once : ∀ n, (transcript (sv.serve s) calls st).1.countP (·.commits .instantiate n) ≤ 1
  /-- A contract is executed only after it has been instantiated. -/
  executed : ∀ n pre x post, (transcript (sv.serve s) calls st).1 = pre ++ x :: post →
    x.commits .execute n = true → ∃ y ∈ pre, y.commits .instantiate n = true
  /-- A contract counts as instantiated exactly when it has been instantiated in the run. -/
  marked : ∀ n, Namespace.Distinct ((markerSpace, n) :: sv.runKeys s calls st) →
    ((isInstantiated n).run s.toSource (transcript (sv.serve s) calls st).2).1 =
      .ok ((transcript (sv.serve s) calls st).1.any (·.commits .instantiate n))
  /-- After the run, whatever a contract does in its namespace, no contract counts as instantiated
  that did not before, and none that did does not any more. -/
  untouched : ∀ n name c, sv.find? name = some c → ∀ action env sender msg,
    let p := c.program action env sender msg
    let o : Overlay σ := { base := (transcript (sv.serve s) calls st).2 }
    Namespace.Distinct
        ((markerSpace, n) :: (p.keysUsed ((Overlay.store s.toSource).scoped name) o).map fun k => (name, k)) →
      ((isInstantiated n).run (Overlay.store s.toSource).toSource
          ((p.scoped name).run (Overlay.store s.toSource) o).state).1 =
        ((isInstantiated n).run s.toSource (transcript (sv.serve s) calls st).2).1

/-- On a memory without markers, runs are guarded when no contract is in the namespace of the
markers. -/
theorem guarded_memory {sv : Service} (hsv : sv.find? markerSpace = none) {calls : List Call}
    (hd : Namespace.Distinct (sv.runKeys Memory.store calls Memory.empty)) :
    (∀ n, (transcript (sv.serve Memory.store) calls Memory.empty).1.countP (·.commits .instantiate n) ≤ 1) ∧
    (∀ n pre x post, (transcript (sv.serve Memory.store) calls Memory.empty).1 = pre ++ x :: post →
      x.commits .execute n = true → ∃ y ∈ pre, y.commits .instantiate n = true) := by
  -- a name that some call of the run commits is among the keys used, and told apart from the others
  have hrun : ∀ {n action} {x : Exchange}, x ∈ (transcript (sv.serve Memory.store) calls Memory.empty).1 →
      x.commits action n = true → MarkerRun sv calls Memory.empty n := by
    intro n action x hx hc
    have hmem := marker_mem_runKeys hx hc
    refine markerRun hsv (hd.mono fun p hp => ?_)
    rcases List.mem_cons.1 hp with rfl | hp
    · exact hmem
    · exact hp
  constructor
  · intro n
    by_cases hany : ∃ x ∈ (transcript (sv.serve Memory.store) calls Memory.empty).1, x.commits .instantiate n = true
    · obtain ⟨x, hx, hc⟩ := hany
      exact Nat.le_of_add_right_le (hrun hx hc).once
    · have h0 : (transcript (sv.serve Memory.store) calls Memory.empty).1.countP (·.commits .instantiate n) = 0 :=
        List.countP_eq_zero.2 fun x hx hc => hany ⟨x, hx, hc⟩
      omega
  · intro n pre x post hsplit hx
    have hmem : x ∈ (transcript (sv.serve Memory.store) calls Memory.empty).1 := by
      rw [hsplit]
      exact List.mem_append_right _ List.mem_cons_self
    have hpre := (hrun hmem hx).executed pre x post hsplit hx
    simpa [Memory.empty] using hpre

/-- Runs on any faithful store that is empty at first are guarded when no contract is in the
namespace of the markers. -/
theorem guarded_of_not_registered {sv : Service} (hsv : sv.find? markerSpace = none) {s : Store σ}
    {holds : σ → Memory → Prop} (hs : s.Faithful (fun _ => True) holds) {st : σ}
    (h0 : holds st Memory.empty) {calls : List Call} (hd : Namespace.Distinct (sv.runKeys s calls st)) :
    sv.Guarded s calls st := by
  obtain ⟨hx, hk, hst⟩ := run_alike hs (fun _ _ => trivial) sv calls h0
  obtain ⟨honce, hexec⟩ := guarded_memory hsv (hk ▸ hd)
  have hread : ∀ n, ((isInstantiated n).run s.toSource (transcript (sv.serve s) calls st).2).1 =
      .ok ((transcript (sv.serve Memory.store) calls Memory.empty).2 (markerKey n)).isSome := fun n =>
    (Reading.run_alike hs (isInstantiated_uses n trivial) hst).1
  refine ⟨by rw [hx]; exact honce, by rw [hx]; exact hexec, ?_, ?_⟩
  · intro n hn
    rw [hread, hx, (markerRun hsv (hk ▸ hn)).after]
    rfl
  · intro n name c hc action env sender msg p o hn
    have hname := ne_markerSpace hsv hc
    have ho := Overlay.store_faithful hs (transcript (sv.serve Memory.store) calls Memory.empty).2
    -- the contract runs on an overlay, which starts out as an overlay of the contents
    have hO : ∃ q, o.Rel (fun _ => True) holds q ∧
        q.base = (transcript (sv.serve Memory.store) calls Memory.empty).2 ∧
        q.contents = (transcript (sv.serve Memory.store) calls Memory.empty).2 :=
      ⟨{ base := _ }, ⟨rfl, fun _ he => absurd he List.not_mem_nil, hst⟩, rfl, rfl⟩
    rw [Program.keysUsed_alike (Store.scoped_alike ho name fun _ => trivial) p.uses_true hO] at hn
    obtain ⟨-, -, hO'⟩ := Program.run_alike ho (p.scoped name).uses_true hO
    rw [(Reading.run_alike ho (isInstantiated_uses n trivial) hO').1, isInstantiated_memory,
      scoped_marker hname hn, hread]

/-! ## A contract in the namespace of the markers -/

/-- Erases the key with the name of the markers' namespace whenever it is executed. Registered
under that name, it erases its own marker. -/
def markerEraser : Contract where
  instantiate _ _ _ := pure {}
  execute _ _ _ := do
    .erase markerSpace
    pure {}
  query _ _ := pure none

/-- The service with the same contract under each of the names. -/
def uniform (c : Contract) (names : List Bytes) : Service :=
  { contracts := names.foldr (fun n t => t.insert n (some c)) Table.empty }

theorem find?_uniform (c : Contract) (names : List Bytes) (n : Bytes) :
    (uniform c names).find? n = if n ∈ names then some c else none := by
  induction names with
  | nil => rfl
  | cons x rest ih =>
    unfold find? uniform at ih ⊢
    rw [List.foldr_cons, Table.get?_insert]
    by_cases h : x = n
    · subst h; simp
    · rw [if_neg h, ih]
      simp [Ne.symm h]

/-- Instantiates, executes and instantiates again the contract with the name of the markers'
namespace. -/
def twice : List Call :=
  [.invoke .instantiate markerSpace ⟨[], 0, 0⟩ ⟨[]⟩ none, .invoke .execute markerSpace ⟨[], 0, 0⟩ ⟨[]⟩ none,
    .invoke .instantiate markerSpace ⟨[], 0, 0⟩ ⟨[]⟩ none]

theorem keysUsed_markerEraser {sv : Service} (h : sv.find? markerSpace = some markerEraser) (action : Action)
    (env : Env) (sender : Address) (msg : Payload) (m : Memory) :
    ∀ p ∈ sv.keysUsed Memory.store (.invoke action markerSpace env sender msg) m,
      p = (markerSpace, markerSpace) := by
  have huses : (markerEraser.program action env sender msg).Uses (· = markerSpace) := by
    cases action with
    | instantiate => trivial
    | execute => exact Program.uses_bind ⟨rfl, fun _ => trivial⟩ fun _ => trivial
  intro p hp
  simp only [keysUsed, h, ownKeys_memory] at hp
  rcases List.mem_cons.1 hp with rfl | hp
  · rfl
  · obtain ⟨k, hk, rfl⟩ := List.mem_map.1 hp
    split at hk
    · rw [huses.keysUsed _ _ k hk]
    · cases hk

theorem distinct_twice {sv : Service} (h : sv.find? markerSpace = some markerEraser) :
    Namespace.Distinct (sv.runKeys Memory.store twice Memory.empty) := by
  have hall : ∀ p ∈ sv.runKeys Memory.store twice Memory.empty, p = (markerSpace, markerSpace) := by
    intro p hp
    simp only [twice, runKeys, List.mem_append, List.not_mem_nil, or_false] at hp
    rcases hp with hp | hp | hp
    · exact keysUsed_markerEraser h _ _ _ _ _ p hp
    · exact keysUsed_markerEraser h _ _ _ _ _ p hp
    · exact keysUsed_markerEraser h _ _ _ _ _ p hp
  refine ⟨fun p hp => ?_, fun p hp q hq _ => by rw [hall p hp, hall q hq]⟩
  rw [hall p hp]
  decide +kernel

/-- The contract under the name of the markers' namespace is instantiated twice. -/
theorem countP_twice {sv : Service} (h : sv.find? markerSpace = some markerEraser) :
    (transcript (sv.serve Memory.store) twice Memory.empty).1.countP
      (·.commits .instantiate markerSpace) = 2 := by
  have hinst : ∀ m : Memory, (m (markerKey markerSpace)).isSome = false →
      sv.serve Memory.store (.invoke .instantiate markerSpace ⟨[], 0, 0⟩ ⟨[]⟩ none) m =
        (⟨.invoke .instantiate markerSpace ⟨[], 0, 0⟩ ⟨[]⟩ none, .response (.ok {})⟩,
          m.put (markerKey markerSpace) (some [1])) := by
    intro m hm
    rw [serve_memory h, body_memory, hm]
    rfl
  have hexec : ∀ m : Memory, (m (markerKey markerSpace)).isSome = true →
      sv.serve Memory.store (.invoke .execute markerSpace ⟨[], 0, 0⟩ ⟨[]⟩ none) m =
        (⟨.invoke .execute markerSpace ⟨[], 0, 0⟩ ⟨[]⟩ none, .response (.ok {})⟩,
          m.put (markerKey markerSpace) none) := by
    intro m hm
    rw [serve_memory h, body_memory, hm]
    rfl
  simp only [twice, transcript]
  rw [hinst _ rfl, hexec _ (by simp), hinst _ (by simp)]
  simp [Exchange.commits]

/-! ## When runs are guarded -/

/-- Contracts registered under given names, whatever they do, are guarded in every run on a
faithful store that is empty at first, as long as no two keys used collide, exactly when none of
the names is the one of the markers' namespace. -/
theorem guarded_iff_marker_namespace_free (names : List Bytes) :
    (∀ sv : Service, sv.Registers names → ∀ (σ : Type) (s : Store σ) (holds : σ → Memory → Prop),
      s.Faithful (fun _ => True) holds → ∀ st, holds st Memory.empty → ∀ calls,
        Namespace.Distinct (sv.runKeys s calls st) → sv.Guarded s calls st) ↔
      markerSpace ∉ names := by
  constructor
  · intro hall hmem
    -- the eraser under every name, the one of the markers' namespace included
    have hreg : (uniform markerEraser names).Registers names := by
      intro n
      rw [find?_uniform]
      split <;> simp_all
    have hfind : (uniform markerEraser names).find? markerSpace = some markerEraser := by
      rw [find?_uniform, if_pos hmem]
    have hguard := hall _ hreg Memory Memory.store Eq Memory.store_faithful Memory.empty rfl twice
      (distinct_twice hfind)
    have honce := hguard.once markerSpace
    rw [countP_twice hfind] at honce
    omega
  · intro hfree sv hreg σ s holds hs st h0 calls hd
    have hsv : sv.find? markerSpace = none := by
      cases h : sv.find? markerSpace with
      | none => rfl
      | some c => exact absurd ((hreg markerSpace).1 (by rw [h]; rfl)) hfree
    exact guarded_of_not_registered hsv hs h0 hd

/-- On a snapshot that is empty at first, a contract under the name of the markers' namespace is
instantiated twice, and no two keys used collide. -/
theorem marker_namespace_unguarded :
    Namespace.Distinct ((uniform markerEraser [markerSpace]).runKeys Snapshot.store twice Snapshot.new) ∧
      ¬ (uniform markerEraser [markerSpace]).Guarded Snapshot.store twice Snapshot.new := by
  have hfind : (uniform markerEraser [markerSpace]).find? markerSpace = some markerEraser := by
    rw [find?_uniform, if_pos List.mem_cons_self]
  obtain ⟨hx, hk, -⟩ := run_alike Snapshot.store_faithful (fun _ _ => trivial)
    (uniform markerEraser [markerSpace]) twice Snapshot.contents_new
  refine ⟨by rw [hk]; exact distinct_twice hfind, ?_⟩
  intro hguard
  have honce := hguard.once markerSpace
  rw [hx, countP_twice hfind] at honce
  omega

end Service

end CounterLedger
