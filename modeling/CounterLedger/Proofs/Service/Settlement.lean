/-
How an invocation is settled on a store that may fail, in whatever order its changes are committed.
An invocation that succeeds leaves the edits that its contract made in its namespace, and the marker
of a first instantiation, and nothing else. One that ends with an error, or is cut off, leaves every
key as it was, with one exception: when the store accepts a first change of the commit and refuses a
later one, the changes before the refused one stay. Which ones these are depends on the order.
-/
import CounterLedger.Contract.Sample
import CounterLedger.Proofs.Service.Memory
import CounterLedger.Proofs.Store.Commit

namespace CounterLedger

variable {σ : Type}

namespace Service

/-! ## The edits of an invocation -/

/-- The marker that a first instantiation leaves. -/
def markerEdits (action : Action) (name : Bytes) : List (Bytes × Change) :=
  match action with
  | .instantiate => [(markerKey name, .value (some [1]))]
  | .execute => []

/-- The edits of a contract that runs in its namespace, and the marker. The contract starts in the
state in which looking at the marker has left the store. -/
def edits (s : Store σ) (c : Contract) (action : Action) (name : Bytes) (env : Env) (sender : Address)
    (msg : Payload) (st : σ) : List (Bytes × Change) :=
  ((c.program action env sender msg).edits (s.scoped name) ((isInstantiated name).run s.toSource st).2).map
    (fun e => (Namespace.key name e.1, e.2)) ++ markerEdits action name

-- whatever the store answers to the write, nothing is edited after it
theorem edits_marker (s : Store σ) (k : Bytes) (v : Payload) (ctx : Context) (res : Response) (st : σ) :
    (do
      Program.within ctx (Program.write k v)
      pure res : Program Response).edits s st = [(k, .value v)] := by
  rw [Program.edits_bind]
  show [(k, Change.value v)] ++ _ = _
  split <;> rfl

theorem body_edits {s : Store σ} {c : Contract} {action : Action} {name : Bytes} {env : Env} {sender : Address}
    {msg : Payload} {st : σ} {res : Response}
    (h : ((body c action name env sender msg).run s st).outcome = .ok res) :
    (body c action name env sender msg).edits s st = edits s c action name env sender msg st := by
  have hlift : (liftM (isInstantiated name) : Program Bool) = (isInstantiated name).toProgram := rfl
  unfold body at h ⊢
  rw [Program.run_bind, hlift, Reading.run_toProgram] at h
  rw [Program.edits_bind, hlift, Reading.run_toProgram, Reading.edits_toProgram, List.nil_append]
  unfold edits
  generalize (isInstantiated name).run s.toSource st = looked at h ⊢
  obtain ⟨found, st'⟩ := looked
  cases found with
  | error e => cases h
  | abort r => cases h
  | ok found =>
    cases action with
    | execute =>
      cases found with
      | false => cases h
      | true =>
        show ((c.execute env sender msg).scoped name).edits s st' = _
        rw [Program.edits_scoped, markerEdits, List.append_nil]
        rfl
    | instantiate =>
      cases found with
      | true => cases h
      | false =>
        change (Program.run s ((c.instantiate env sender msg).scoped name >>= _) st').outcome = _ at h
        show ((c.instantiate env sender msg).scoped name >>= _).edits s st' = _
        rw [Program.run_bind] at h
        rw [Program.edits_bind, Program.edits_scoped]
        cases hr : (((c.instantiate env sender msg).scoped name).run s st').outcome with
        | error e => simp only [Program.Ran.andThen, hr] at h; cases h
        | abort r => simp only [Program.Ran.andThen, hr] at h; cases h
        | ok res' =>
          simp only
          rw [edits_marker]
          rfl

/-- The edits that an invocation makes if it succeeds; a name without a contract has none. -/
def planned (sv : Service) (s : Store σ) (action : Action) (name : Bytes) (env : Env) (sender : Address)
    (msg : Payload) (st : σ) : List (Bytes × Change) :=
  match sv.find? name with
  | none => []
  | some c => edits (Overlay.store s.toSource) c action name env sender msg { base := st }

/-! ## Settlement -/

/-- How the contents of a store before and after an invocation are related by its outcome, when the
commit visits the changes in some order. -/
inductive Settled (visit : Table Change → List (Bytes × Change)) (before after : Memory)
    (planned : List (Bytes × Change)) : Outcome Response → Prop where
  /-- A success: the edits have been made in order, and no other key has changed. -/
  | done (res : Response) : after = before.edited planned → Settled visit before after planned (.ok res)
  /-- An error of whatever cause: no key has changed. -/
  | kept (e : Error) : after = before → Settled visit before after planned (.error e)
  /-- An invocation that was cut off: no key has changed. -/
  | cut (reason : Option Bytes) : after = before → Settled visit before after planned (.abort reason)
  /-- The store broke the commit off at a key, after it had accepted other changes: these stay. -/
  | torn (made : List (Bytes × Change)) (k : Bytes) (change : Change) (rest : List (Bytes × Change))
      (cause : Error) : visit (Table.ofList planned) = made ++ (k, change) :: rest → made ≠ [] →
      after = before.edited made →
      Settled visit before after planned (.error (.within .commit (.within (.applyKey k) cause)))

section Fallible

variable {s : Store σ} {contents : σ → Memory}

/-- The work of an invocation on its overlay: the store below keeps its contents, and after a success
the changes that wait are the edits. -/
theorem body_staged (hs : s.Fallible contents) (c : Contract) (action : Action) (name : Bytes) (env : Env)
    (sender : Address) (msg : Payload) (st : σ) :
    let ran := (body c action name env sender msg).run (Overlay.store s.toSource) { base := st }
    let planned := edits (Overlay.store s.toSource) c action name env sender msg { base := st }
    contents ran.state.base = contents st ∧
      ∀ res, ran.outcome = .ok res → ran.state.changes = Table.ofList planned ∧
        (contents st).edited ran.state.changes.entries = (contents st).edited planned := by
  intro ran planned
  obtain ⟨hbase, hview⟩ := Program.run_overlay hs (body c action name env sender msg) { base := st }
  refine ⟨hbase, fun res hres => ?_⟩
  have hchanges := Program.changes_overlay s.toSource (body c action name env sender msg) { base := st }
  rw [body_edits hres] at hview hchanges
  have hentries := Overlay.edited_entries (ran.state.over contents)
  refine ⟨hchanges, ?_⟩
  calc (contents st).edited ran.state.changes.entries
      = (contents ran.state.base).edited ran.state.changes.entries := by rw [hbase]
    _ = (ran.state.over contents).contents := hentries
    _ = (contents st).edited planned := hview

/-- The commit of changes that lead from the contents to the planned ones. -/
theorem settled_commit (hs : s.Fallible contents) {visit : Table Change → List (Bytes × Change)}
    (hvisit : ∀ t, (visit t).Perm t.entries) {planned : List (Bytes × Change)} {o : Overlay σ} {before : Memory}
    (hbase : contents o.base = before) (hchanges : o.changes = Table.ofList planned)
    (hedited : before.edited o.changes.entries = before.edited planned) (res : Response) :
    Settled visit before (contents (s.settleIn visit (.ok res, o)).2) planned (s.settleIn visit (.ok res, o)).1 := by
  rw [Store.settleIn_ok]
  rcases Store.apply_fallible hs (visit o.changes) o.base with
    ⟨hall, hc⟩ | ⟨made, k, change, rest, cause, hl, hrefused, hc⟩
  · rw [hall]
    exact .done res (by rw [hc, hbase, Memory.edited_perm (hvisit o.changes), hedited])
  · rw [hrefused]
    rw [hbase] at hc
    -- a commit that is refused at its first change has made none
    by_cases hmade : made = []
    · subst hmade
      exact .kept _ hc
    · exact .torn made k change rest cause (hchanges ▸ hl) hmade hc

/-- An invocation is all or nothing on every store that may fail, except for a commit that the store
breaks off after it has accepted a change. So it is in whatever order the changes are committed, that
of the keys among them. -/
theorem invoke_settled (hs : s.Fallible contents) (sv : Service) {visit : Table Change → List (Bytes × Change)}
    (hvisit : ∀ t, (visit t).Perm t.entries) (action : Action) (name : Bytes) (env : Env) (sender : Address)
    (msg : Payload) (st : σ) :
    let r := sv.invokeIn visit s action name env sender msg st
    Settled visit (contents st) (contents r.state) (sv.planned s action name env sender msg st) r.outcome := by
  intro r
  simp only [r, invokeIn, planned]
  cases hc : sv.find? name with
  | none => exact .kept _ rfl
  | some c =>
    obtain ⟨hbase, hok⟩ := body_staged hs c action name env sender msg st
    simp only [report_outcome, report_state]
    generalize (body c action name env sender msg).run (Overlay.store s.toSource) { base := st } = ran at hbase hok ⊢
    cases hr : ran.outcome with
    | error e => exact .kept e hbase
    | abort reason => exact .cut reason hbase
    | ok res =>
      obtain ⟨hchanges, hedited⟩ := hok res hr
      exact settled_commit hs hvisit hbase hchanges hedited res

end Fallible

/-! ## A commit that is broken off -/

/-- A service with one contract, which runs scripts. -/
def scriptService : Service := { contracts := Table.empty.insert (utf8 "abc") (some Sample.script) }

/-- A store in which the contract has been instantiated and has two keys, and which deletes nothing. -/
def undeletable : PlainStore where
  values := Table.ofList [(markerKey (utf8 "abc"), some [1]),
    (Namespace.key (utf8 "abc") (utf8 "a"), some (utf8 "1")), (Namespace.key (utf8 "abc") (utf8 "c"), some (utf8 "1"))]
  faults := { delete := true }

/-- Overwrites the one key and deletes the other, in the order in which the changes are visited. -/
def brokenCall (visit : Table Change → List (Bytes × Change)) : Invoked Response PlainStore :=
  scriptService.invokeIn visit PlainStore.store .execute (utf8 "abc") ⟨[], 0, 0⟩ ⟨utf8 "alice"⟩
    (some (utf8 "set a 2\ndel c")) undeletable

/-- The call fails, because the second key cannot be deleted, and the first is overwritten. -/
theorem failed_call_leaves_write :
    ∃ e, (brokenCall Table.entries).outcome = .error e ∧
      undeletable.contents (Namespace.key (utf8 "abc") (utf8 "a")) = some (utf8 "1") ∧
      (brokenCall Table.entries).state.contents (Namespace.key (utf8 "abc") (utf8 "a")) = some (utf8 "2") := by
  have h : (match (brokenCall Table.entries).outcome with | .error _ => true | _ => false) = true ∧
      undeletable.contents (Namespace.key (utf8 "abc") (utf8 "a")) = some (utf8 "1") ∧
      (brokenCall Table.entries).state.contents (Namespace.key (utf8 "abc") (utf8 "a")) = some (utf8 "2") := by
    decide +kernel
  obtain ⟨herror, hcontents⟩ := h
  cases ho : (brokenCall Table.entries).outcome with
  | error e => exact ⟨e, rfl, hcontents⟩
  | ok res => rw [ho] at herror; cases herror
  | abort r => rw [ho] at herror; cases herror

/-- The broken call is settled as one that failed, from the first key to the last and the other way
round: nothing else than the commit being torn explains what it leaves in the first order. -/
theorem invoke_settled_broken :
    PlainStore.store.Fallible PlainStore.contents ∧
      ∀ visit ∈ [Table.entries, fun t => t.entries.reverse],
        (∀ t, (visit t).Perm t.entries) ∧
          Settled visit undeletable.contents (brokenCall visit).state.contents
            (scriptService.planned PlainStore.store .execute (utf8 "abc") ⟨[], 0, 0⟩ ⟨utf8 "alice"⟩
              (some (utf8 "set a 2\ndel c")) undeletable)
            (brokenCall visit).outcome := by
  refine ⟨PlainStore.store_fallible, fun visit hvisit => ?_⟩
  have horder : ∀ t, (visit t).Perm t.entries := by
    intro t
    rcases List.mem_pair.1 hvisit with rfl | rfl
    · exact .refl _
    · exact t.entries.reverse_perm
  exact ⟨horder, invoke_settled PlainStore.store_fallible scriptService horder .execute (utf8 "abc") ⟨[], 0, 0⟩
    ⟨utf8 "alice"⟩ (some (utf8 "set a 2\ndel c")) undeletable⟩

end Service

end CounterLedger
