/-
Isolation of contracts. The contracts of a service share one store, each in its namespace. Over any
run, a contract gets the replies that it would get if the calls to all other contracts were left out,
and reads the same values in its namespace afterwards. No contract is called under the name of the
markers' namespace, and no two keys that are digested on the way collide.
-/
import CounterLedger.Proofs.Service.Guard
import CounterLedger.Contract.Sample

namespace CounterLedger

variable {α β σ τ : Type}

/-! ## Memories that agree on some keys -/

theorem Memory.alike_on (keys : Bytes → Prop) :
    Memory.store.Alike Memory.store keys (fun m n => ∀ k, keys k → m k = n k) where
  get := fun hk hmn => ⟨congrArg Except.ok (hmn _ hk), hmn⟩
  set := by
    intro k v m n _ hmn
    refine ⟨rfl, fun k' hk' => ?_⟩
    show m.put k v k' = n.put k v k'
    unfold Memory.put
    rw [hmn k' hk']
  delete := by
    intro k m n _ hmn
    refine ⟨rfl, fun k' hk' => ?_⟩
    show m.put k none k' = n.put k none k'
    unfold Memory.put
    rw [hmn k' hk']

theorem Store.Alike.scoped {s : Store σ} {t : Store τ} {keys : Bytes → Prop} {R : σ → τ → Prop}
    (h : s.Alike t keys R) (space : Bytes) :
    (s.scoped space).Alike (t.scoped space) (fun k => keys (Namespace.key space k)) R where
  get := fun hk hR => h.get hk hR
  set := fun hk hR => h.set hk hR
  delete := fun hk hR => h.delete hk hR

theorem Program.keysUsed_bind (s : Store σ) (p : Program α) (f : α → Program β) (st : σ) :
    (p >>= f).keysUsed s st = p.keysUsed s st ++
      match (p.run s st).outcome with
      | .ok a => (f a).keysUsed s (p.run s st).state
      | _ => [] := by
  show (p.bind f).keysUsed s st = _
  induction p generalizing st with
  | done o => cases o <;> rfl
  | get k next ih => exact congrArg _ (ih _ _)
  | set k v next ih => exact congrArg _ (ih _ _)
  | delete k next ih => exact congrArg _ (ih _ _)
  | log e next ih => exact ih st

theorem Program.Ran.kept_apply (r : Program.Ran α Memory) (m : Memory) (k : Bytes) :
    r.kept m k =
      match r.outcome with
      | .ok _ => r.state k
      | _ => m k := by
  unfold Program.Ran.kept
  cases r.outcome <;> rfl

/-- Pairs whose storage keys are listed without repetition are told apart. -/
theorem Namespace.distinct_of_nodup {used : List (Bytes × Bytes)}
    (hshort : ∀ p ∈ used, p.1.length < 65536 ∧ p.2.length < 65536)
    (h : (used.map fun p => Namespace.key p.1 p.2).Nodup) : Namespace.Distinct used := by
  refine ⟨hshort, fun p hp q hq he => ?_⟩
  rw [List.inj_on_of_nodup_map h hp hq he]

namespace Service

/-! ## The keys that are digested -/

/-- The contract that is called. -/
def Call.name : Call → Bytes
  | .invoke _ name _ _ _ => name
  | .query name _ _ => name

/-- The namespaced keys of which a call takes the digest. -/
def digested (sv : Service) (s : Store σ) (call : Call) (st : σ) : List (Bytes × Bytes) :=
  match call with
  | .invoke .. => sv.keysUsed s call st
  | .query name env msg =>
    match sv.find? name with
    | none => []
    | some c => ((c.query env msg).toProgram.keysUsed (s.scoped name) st).map fun k => (name, k)

/-- The namespaced keys of which the calls of a run take the digest. -/
def runDigested (sv : Service) (s : Store σ) : List Call → σ → List (Bytes × Bytes)
  | [], _ => []
  | call :: rest, st => sv.digested s call st ++ sv.runDigested s rest (sv.serve s call st).2

theorem runDigested_alike {s : Store σ} {t : Store τ} {keys : Bytes → Prop} {R : σ → τ → Prop}
    (h : s.Alike t keys R) (hk : ∀ space k, keys (Namespace.key space k)) (sv : Service) (calls : List Call)
    {st : σ} {tt : τ} (hR : R st tt) : sv.runDigested s calls st = sv.runDigested t calls tt := by
  induction calls generalizing st tt with
  | nil => rfl
  | cons call rest ih =>
    have hcall : sv.digested s call st = sv.digested t call tt := by
      cases call with
      | invoke action name env sender msg =>
        exact keysUsed_alike h hk sv (.invoke action name env sender msg) hR
      | query name env msg =>
        simp only [digested]
        cases sv.find? name with
        | none => rfl
        | some c =>
          simp only [Program.keysUsed_alike (Store.scoped_alike h name (hk name))
            (c.query env msg).toProgram.uses_true hR]
    simp only [runDigested]
    rw [hcall, ih (serve_alike h hk sv call hR).2]

/-- The namespaced keys of a contract: those in its namespace, and its marker. -/
def Owns (name : Bytes) (p : Bytes × Bytes) : Prop := p.1 = name ∨ p = (markerSpace, name)

/-- A call takes the digests of keys of its contract only. -/
theorem owns_of_mem_digested {sv : Service} {s : Store σ} {call : Call} {st : σ} {p : Bytes × Bytes}
    (hp : p ∈ sv.digested s call st) : Owns call.name p := by
  cases call with
  | invoke action name env sender msg =>
    simp only [digested, keysUsed] at hp
    split at hp
    · cases hp
    · rcases List.mem_cons.1 hp with rfl | hp
      · exact .inr rfl
      · obtain ⟨k, -, rfl⟩ := List.mem_map.1 hp
        exact .inl rfl
  | query name env msg =>
    simp only [digested] at hp
    split at hp
    · cases hp
    · obtain ⟨k, -, rfl⟩ := List.mem_map.1 hp
      exact .inl rfl

/-- No key belongs to two contracts, neither of them under the name of the markers' namespace. -/
theorem Owns.unique {a b : Bytes} {p : Bytes × Bytes} (ha : a ≠ markerSpace) (hb : b ≠ markerSpace)
    (hpa : Owns a p) (hpb : Owns b p) : a = b := by
  rcases hpa with rfl | rfl
  · rcases hpb with h | h
    · exact h
    · exact absurd (congrArg Prod.fst h) ha
  · rcases hpb with h | h
    · exact absurd h.symm hb
    · exact congrArg Prod.snd h

/-! ## One call -/

theorem query_memory_state (sv : Service) (name : Bytes) (env : Env) (msg : Payload) (m : Memory) :
    (sv.query Memory.store.toSource name env msg m).state = m := by
  unfold query
  cases sv.find? name with
  | none => rfl
  | some c =>
    simp only [report_state]
    exact Reading.run_memory_state _ m

/-- The work of an invocation on a memory uses the storage keys of what it digests. -/
theorem body_keysUsed {sv : Service} {name : Bytes} {c : Contract} (hc : sv.find? name = some c)
    (action : Action) (env : Env) (sender : Address) (msg : Payload) (m : Memory) :
    ∀ k ∈ (body c action name env sender msg).keysUsed Memory.store m,
      ∃ p ∈ sv.digested Memory.store (.invoke action name env sender msg) m, k = Namespace.key p.1 p.2 := by
  have hlift : (liftM (isInstantiated name) : Program Bool) = (isInstantiated name).toProgram := rfl
  have hlook : (isInstantiated name).toProgram.keysUsed Memory.store m = [markerKey name] := rfl
  have hmarker : (markerSpace, name) ∈ sv.digested Memory.store (.invoke action name env sender msg) m := by
    simp only [digested, keysUsed, hc]
    exact List.mem_cons_self
  -- what the contract itself uses, when its marker lets it run
  have hown : (m (markerKey name)).isSome = decide (action = .execute) →
      ∀ k ∈ ((c.program action env sender msg).scoped name).keysUsed Memory.store m,
        ∃ p ∈ sv.digested Memory.store (.invoke action name env sender msg) m, k = Namespace.key p.1 p.2 := by
    intro hrun k hk
    rw [Program.keysUsed_scoped] at hk
    obtain ⟨k', hk', rfl⟩ := List.mem_map.1 hk
    refine ⟨(name, k'), ?_, rfl⟩
    simp only [digested, keysUsed, hc, ownKeys_memory, if_pos hrun]
    exact List.mem_cons_of_mem _ (List.mem_map.2 ⟨k', hk', rfl⟩)
  intro k hk
  unfold body at hk
  rw [Program.keysUsed_bind, hlift, hlook, Reading.run_toProgram, isInstantiated_memory] at hk
  rcases List.mem_append.1 hk with hk | hk
  · exact ⟨_, hmarker, List.mem_singleton.1 hk⟩
  · cases action with
    | execute =>
      cases hm : (m (markerKey name)).isSome with
      | false => rw [hm] at hk; cases hk
      | true => rw [hm] at hk; exact hown hm k hk
    | instantiate =>
      cases hm : (m (markerKey name)).isSome with
      | true => rw [hm] at hk; cases hk
      | false =>
        rw [hm] at hk
        change k ∈ (((c.instantiate env sender msg).scoped name) >>= _).keysUsed Memory.store m at hk
        rw [Program.keysUsed_bind] at hk
        rcases List.mem_append.1 hk with hk | hk
        · exact hown hm k hk
        · split at hk
          · exact ⟨_, hmarker, List.mem_singleton.1 hk⟩
          · cases hk

/-- A call leaves the keys alone of which it takes no digest. -/
theorem serve_frame (sv : Service) (call : Call) (m : Memory) {k : Bytes}
    (hk : ∀ p ∈ sv.digested Memory.store call m, k ≠ Namespace.key p.1 p.2) :
    (sv.serve Memory.store call m).2 k = m k := by
  cases call with
  | query name env msg =>
    show (sv.query Memory.store.toSource name env msg m).state k = m k
    rw [query_memory_state]
  | invoke action name env sender msg =>
    cases hc : sv.find? name with
    | none => simp only [serve, invoke_unknown hc]
    | some c =>
      rw [serve_memory hc]
      have hframe := Program.run_frame (body c action name env sender msg) m (k := k) fun hmem => by
        obtain ⟨p, hp, he⟩ := body_keysUsed hc action env sender msg m k hmem
        exact hk p hp he
      show ((body c action name env sender msg).run Memory.store m).kept m k = m k
      rw [Program.Ran.kept_apply]
      split
      · exact hframe
      · rfl

/-- A call goes the same way on memories that agree on the keys of which it takes the digest. -/
theorem serve_agree (sv : Service) (call : Call) {keys : Bytes → Prop} {m n : Memory}
    (hk : ∀ p ∈ sv.digested Memory.store call m, keys (Namespace.key p.1 p.2))
    (hmn : ∀ k, keys k → m k = n k) :
    (sv.serve Memory.store call m).1 = (sv.serve Memory.store call n).1 ∧
      ∀ k, keys k → (sv.serve Memory.store call m).2 k = (sv.serve Memory.store call n).2 k := by
  cases call with
  | query name env msg =>
    have hstate : ∀ m, (sv.serve Memory.store (.query name env msg) m).2 = m :=
      fun m => query_memory_state sv name env msg m
    refine ⟨?_, fun k hkey => by rw [hstate, hstate]; exact hmn k hkey⟩
    simp only [serve, query]
    cases hc : sv.find? name with
    | none => rfl
    | some c =>
      have hused : ∀ k ∈ (c.query env msg).toProgram.keysUsed (Memory.store.scoped name) m,
          keys (Namespace.key name k) := by
        intro k hmem
        refine hk (name, k) ?_
        simp only [digested, hc]
        exact List.mem_map.2 ⟨k, hmem, rfl⟩
      obtain ⟨ho, -, -⟩ := Program.run_alike_used ((Memory.alike_on keys).scoped name) hused hmn
      rw [Reading.run_toProgram, Reading.run_toProgram] at ho
      simp only at ho
      simp only [report_outcome, Reading.run_scoped]
      rw [ho]
  | invoke action name env sender msg =>
    cases hc : sv.find? name with
    | none =>
      simp only [serve, invoke_unknown hc]
      exact ⟨trivial, hmn⟩
    | some c =>
      have hused : ∀ k ∈ (body c action name env sender msg).keysUsed Memory.store m, keys k := by
        intro k hmem
        obtain ⟨p, hp, rfl⟩ := body_keysUsed hc action env sender msg m k hmem
        exact hk p hp
      obtain ⟨ho, -, hs⟩ := Program.run_alike_used (Memory.alike_on keys) hused hmn
      rw [serve_memory hc, serve_memory hc]
      refine ⟨by simp only [ho], ?_⟩
      intro k hkey
      simp only
      rw [Program.Ran.kept_apply, Program.Ran.kept_apply, ← ho]
      split
      · exact hs k hkey
      · exact hmn k hkey

/-! ## Runs -/

/-- The storage keys of a contract among the given namespaced keys. -/
def OwnKey (used : List (Bytes × Bytes)) (name : Bytes) (k : Bytes) : Prop :=
  ∃ p ∈ used, Owns name p ∧ k = Namespace.key p.1 p.2

/-- What the calls of others leave alone, and what the calls of a contract agree on: its own keys.
The run and the run of the contract alone may start from any two memories that agree on these. -/
theorem run_isolated {sv : Service} {b : Bytes} (hb : b ≠ markerSpace) {used : List (Bytes × Bytes)}
    (hd : Namespace.Distinct used) {calls : List Call} (hcalls : ∀ call ∈ calls, call.name ≠ markerSpace)
    {m n : Memory} (hused : ∀ p ∈ sv.runDigested Memory.store calls m, p ∈ used)
    (hmn : ∀ k, OwnKey used b k → m k = n k) :
    (transcript (sv.serve Memory.store) calls m).1.filter (fun x => x.call.name = b) =
        (transcript (sv.serve Memory.store) (calls.filter (fun call => call.name = b)) n).1 ∧
      ∀ k, OwnKey used b k → (transcript (sv.serve Memory.store) calls m).2 k =
        (transcript (sv.serve Memory.store) (calls.filter (fun call => call.name = b)) n).2 k := by
  induction calls generalizing m n with
  | nil => exact ⟨rfl, hmn⟩
  | cons call rest ih =>
    have hname := hcalls call List.mem_cons_self
    have hrest : ∀ c ∈ rest, c.name ≠ markerSpace := fun c hc => hcalls c (List.mem_cons_of_mem _ hc)
    have hnow : ∀ p ∈ sv.digested Memory.store call m, p ∈ used :=
      fun p hp => hused p (List.mem_append_left _ hp)
    have hlater : ∀ p ∈ sv.runDigested Memory.store rest (sv.serve Memory.store call m).2, p ∈ used :=
      fun p hp => hused p (List.mem_append_right _ hp)
    have hcall : (sv.serve Memory.store call m).1.call = call := by cases call <;> rfl
    by_cases hown : call.name = b
    · -- both runs make the call, on keys that they agree on
      have hkeys : ∀ p ∈ sv.digested Memory.store call m, OwnKey used b (Namespace.key p.1 p.2) :=
        fun p hp => ⟨p, hnow p hp, hown ▸ owns_of_mem_digested hp, rfl⟩
      obtain ⟨hreply, hafter⟩ := serve_agree sv call hkeys hmn
      obtain ⟨hreplies, hfinal⟩ := ih hrest hlater hafter
      rw [List.filter_cons_of_pos (by simpa using hown)]
      simp only [transcript]
      rw [List.filter_cons_of_pos (by simpa [hcall] using hown), hreplies, hreply]
      exact ⟨rfl, hfinal⟩
    · -- only the first run makes the call, and it stays off the keys of the contract
      have hafter : ∀ k, OwnKey used b k → (sv.serve Memory.store call m).2 k = n k := by
        rintro k hk
        rw [serve_frame sv call m ?_, hmn k hk]
        obtain ⟨p, hp, hpb, rfl⟩ := hk
        intro q hq he
        obtain ⟨h1, h2⟩ := hd.key_inj hp (hnow q hq) he
        have hpq : p = q := Prod.ext h1 h2
        exact hown ((owns_of_mem_digested hq).unique hname hb (hpq ▸ hpb))
      obtain ⟨hreplies, hfinal⟩ := ih hrest hlater hafter
      rw [List.filter_cons_of_neg (by simpa using hown)]
      simp only [transcript]
      rw [List.filter_cons_of_neg (by simpa [hcall] using hown)]
      exact ⟨hreplies, hfinal⟩

/-- Contracts do not interfere. On a store that does not fail, whatever it holds, take any run of
calls to the contract `b` and to other contracts, none of them under the name of the markers'
namespace, in which no two digested keys collide. The replies to the calls to `b` are those of the
run of these calls alone, and afterwards every key reads the same in the namespace of `b`. -/
theorem calls_isolated {s : Store σ} {holds : σ → Memory → Prop} (hs : s.Faithful (fun _ => True) holds)
    (sv : Service) {b : Bytes} (hb : b ≠ markerSpace) {calls : List Call}
    (hcalls : ∀ call ∈ calls, call.name ≠ markerSpace) {st : σ} {m : Memory} (hst : holds st m)
    (hd : Namespace.Distinct (sv.runDigested s calls st)) :
    let all := transcript (sv.serve s) calls st
    let own := transcript (sv.serve s) (calls.filter fun call => call.name = b) st
    all.1.filter (fun x => x.call.name = b) = own.1 ∧
      ∀ k, Namespace.Distinct ((b, k) :: sv.runDigested s calls st) →
        ((s.scoped b).get k all.2).1 = ((s.scoped b).get k own.2).1 := by
  intro all own
  obtain ⟨hall, -, hallst⟩ := run_alike hs (fun _ _ => trivial) sv calls hst
  obtain ⟨hown, -, hownst⟩ := run_alike hs (fun _ _ => trivial) sv (calls.filter fun call => call.name = b) hst
  rw [runDigested_alike hs (fun _ _ => trivial) sv calls hst] at hd ⊢
  constructor
  · show (transcript (sv.serve s) calls st).1.filter _ = _
    rw [hall, (run_isolated hb hd hcalls (fun _ hp => hp) fun _ _ => rfl).1]
    exact hown.symm
  · intro k hk
    have hagree := (run_isolated hb hk hcalls (fun _ hp => List.mem_cons_of_mem _ hp) (m := m) (n := m)
      fun _ _ => rfl).2 (Namespace.key b k) ⟨(b, k), List.mem_cons_self, .inl rfl, rfl⟩
    show (s.get (Namespace.key b k) all.2).1 = (s.get (Namespace.key b k) own.2).1
    rw [(hs.get trivial hallst).1, (hs.get trivial hownst).1]
    exact congrArg Except.ok hagree

/-! ## Two contracts that keep their last message -/

/-- The names of the two. -/
def echoNames : List Bytes := [[0x61], [0x62]]

/-- Calls to the two in turn. -/
def echoCalls : List Call :=
  [.invoke .instantiate [0x62] ⟨[], 0, 0⟩ ⟨[0x78]⟩ (some [1]), .invoke .instantiate [0x61] ⟨[], 0, 0⟩ ⟨[0x78]⟩ (some [2]),
    .invoke .execute [0x62] ⟨[], 0, 0⟩ ⟨[0x78]⟩ (some [3]), .invoke .execute [0x61] ⟨[], 0, 0⟩ ⟨[0x78]⟩ none,
    .query [0x62] ⟨[], 0, 0⟩ none]

theorem mem_digested_echo {names : List Bytes} {call : Call} {m : Memory} {p : Bytes × Bytes}
    (hp : p ∈ (uniform Sample.echo names).digested Memory.store call m) :
    p = (markerSpace, call.name) ∨ p = (call.name, utf8 "last") := by
  have huses : ∀ action env sender msg, (Sample.echo.program action env sender msg).Uses (· = utf8 "last") := by
    intro action env sender msg
    cases action <;> exact Program.uses_bind (Program.uses_write rfl msg) fun _ => trivial
  cases call with
  | invoke action name env sender msg =>
    simp only [digested, keysUsed, find?_uniform] at hp
    split_ifs at hp
    · rcases List.mem_cons.1 hp with rfl | hp
      · exact .inl rfl
      · obtain ⟨k, hk, rfl⟩ := List.mem_map.1 hp
        rw [ownKeys_memory] at hk
        split_ifs at hk
        · exact .inr (by rw [(huses action env sender msg).keysUsed _ _ k hk]; rfl)
        · cases hk
    · cases hp
  | query name env msg =>
    simp only [digested, find?_uniform] at hp
    split_ifs at hp
    · obtain ⟨k, hk, rfl⟩ := List.mem_map.1 hp
      exact .inr (by rw [List.mem_singleton.1 hk]; rfl)
    · cases hp

theorem distinct_echoCalls :
    Namespace.Distinct ((uniform Sample.echo echoNames).runDigested Snapshot.store echoCalls Snapshot.new) := by
  have hlist : Namespace.Distinct [(markerSpace, [0x61]), (markerSpace, [0x62]), ([0x61], utf8 "last"),
      ([0x62], utf8 "last")] :=
    Namespace.distinct_of_nodup (by decide +kernel) (by decide +kernel)
  rw [runDigested_alike Snapshot.store_faithful (fun _ _ => trivial) _ _ Snapshot.contents_new]
  refine hlist.mono fun p hp => ?_
  simp only [echoCalls, runDigested, List.mem_append, List.not_mem_nil, or_false] at hp
  rcases hp with hp | hp | hp | hp | hp
  all_goals
    rcases mem_digested_echo hp with rfl | rfl
    · simp [Call.name]
    · simp [Call.name]

theorem calls_isolated_echo :
    let sv := uniform Sample.echo echoNames
    Snapshot.store.Faithful (fun _ => True) (fun o m => Snapshot.contents o = m) ∧
      (∀ call ∈ echoCalls, call.name ≠ markerSpace) ∧
      Namespace.Distinct (sv.runDigested Snapshot.store echoCalls Snapshot.new) ∧
      (transcript (sv.serve Snapshot.store) echoCalls Snapshot.new).1.filter (fun x => x.call.name = [0x62]) =
        (transcript (sv.serve Snapshot.store) (echoCalls.filter fun call => call.name = [0x62]) Snapshot.new).1 := by
  intro sv
  have hnames : ∀ call ∈ echoCalls, call.name ≠ markerSpace := by decide +kernel
  exact ⟨Snapshot.store_faithful, hnames, distinct_echoCalls,
    (calls_isolated Snapshot.store_faithful sv (by decide +kernel) hnames Snapshot.contents_new distinct_echoCalls).1⟩

end Service

end CounterLedger
