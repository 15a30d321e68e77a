/-
Failed calls are erasable. A call that is not committed leaves the database as it was, whatever
failed and wherever, and a request that only reads leaves it anyway. Contracts see neither metrics
nor logs, and those that do not look at the time see nothing else that such a request leaves. So a
run and what remains of it without these requests commit the same calls, with the same replies.
-/
import CounterLedger.Proofs.Host.Run

namespace CounterLedger

/-- The entry points that change state do not look at the time. -/
def Contract.Timeless (c : Contract) : Prop :=
  ∀ action (env env' : Env) sender msg, env.chain = env'.chain → env.height = env'.height →
    c.program action env sender msg = c.program action env' sender msg

/-- No registered contract looks at the time. -/
def Service.Timeless (sv : Service) : Prop := ∀ name c, sv.find? name = some c → c.Timeless

/-- At different times an invocation of a timeless contract is the same, in its log too. -/
theorem Service.invoke_timeless {σ : Type} {sv : Service} (hsv : sv.Timeless) (s : Store σ) (action : Action)
    (name : Bytes) {env env' : Env} (hchain : env.chain = env'.chain) (hheight : env.height = env'.height)
    (sender : Address) (msg : Payload) (st : σ) :
    sv.invoke s action name env sender msg st = sv.invoke s action name env' sender msg st := by
  simp only [invoke_eq]
  cases hc : sv.find? name with
  | none => rfl
  | some c =>
    have hprogram := hsv name c hc action env env' sender msg hchain hheight
    have hbody : body c action name env sender msg = body c action name env' sender msg := by
      unfold body
      cases action with
      | instantiate => rw [show c.instantiate env sender msg = c.instantiate env' sender msg from hprogram]
      | execute => rw [show c.execute env sender msg = c.execute env' sender msg from hprogram]
    simp only [hbody, report, logEntry, hheight]

namespace Host

/-! ## Calls that fail -/

/-- The callback of a call is registered whenever its work succeeds. -/
theorem work_committed (h : Host) (action : Action) (caller : Address) (name : Bytes) (msg : Payload)
    (tx : Transaction) {e : Event} (he : (h.work action caller name msg tx).outcome = .ok e) :
    (h.work action caller name msg tx).tx.callbacks.contains committedMark = true := by
  simp only [work] at he ⊢
  cases h₁ : h.openBucket hostBucket .hostBucket .hostBucket tx with
  | error e => simp only [h₁, reduceCtorEq] at he
  | ok tx₁ =>
    simp only [h₁] at he ⊢
    cases h₂ : h.openBucket stateBucket .stateBucket .stateBucket tx₁ with
    | error e => simp only [h₂, reduceCtorEq] at he
    | ok tx₂ =>
      simp only [h₂] at he ⊢
      generalize h.service.invoke h.storage action name (h.env (readHeight tx₂ + 1)) caller msg tx₂ = r at he ⊢
      cases ho : r.outcome with
      | error e => simp only [ho, reduceCtorEq] at he
      | abort a => simp only [ho, reduceCtorEq] at he
      | ok response =>
        simp only [ho] at he ⊢
        cases h₃ : h.writeHeight (readHeight tx₂ + 1) r.state with
        | error e => simp only [h₃, reduceCtorEq] at he
        | ok tx₃ => simp [Transaction.onCommit]

/-- A call that does not succeed leaves the database as it was. -/
theorem invoke_failed {h : Host} (hb : h.breakdown ≠ some .noCallbacks) (action : Action) (caller : Address)
    (name : Bytes) (msg : Payload) (hf : ∀ e, (h.invoke action caller name msg).outcome ≠ .ok e) :
    (h.invoke action caller name msg).host.database = h.database := by
  unfold invoke at hf ⊢
  split
  · rfl
  rename_i hcaller
  rw [if_neg hcaller] at hf
  split
  · rfl
  rename_i hupdate
  rw [if_neg hupdate] at hf
  cases hs : h.database.start true with
  | error e => rfl
  | ok tx =>
    simp only [hs] at hf ⊢
    have hmark := fun e => h.work_committed action caller name msg tx (e := e)
    generalize h.work action caller name msg tx = w at hf hmark ⊢
    cases ho : w.outcome with
    | error e => rfl
    | abort a => rfl
    | ok event =>
      -- the work succeeded, so the callback is there and the call is committed
      simp only [ho, Database.finish, hmark event ho, ne_eq, hb, not_false_eq_true, decide_true, Bool.and_self,
        if_true] at hf
      exact absurd rfl (hf event)

/-! ## Calls that are repeated -/

/-- The hosts agree in all that contracts can see, up to the time. -/
structure Same (h h' : Host) : Prop where
  service : h.service = h'.service
  chain : h.chain = h'.chain
  database : h.database = h'.database

/-- The work of a call is the same on hosts that agree and break down in the same way. -/
theorem work_same {h h' : Host} (hs : h.Same h') (hb : h.breakdown = h'.breakdown)
    (hsv : h.service.Timeless) (action : Action) (caller : Address) (name : Bytes) (msg : Payload)
    (tx : Transaction) : h.work action caller name msg tx = h'.work action caller name msg tx := by
  have hopen : h.openBucket = h'.openBucket := by funext; simp only [openBucket, hb]
  have hstorage : h.storage = h'.storage := by simp only [storage, hb]
  have hwrite : h.writeHeight = h'.writeHeight := by funext; simp only [writeHeight, hb]
  have hinvoke (n : UInt64) (st : Transaction) :
      h.service.invoke h.storage action name (h.env n) caller msg st =
        h'.service.invoke h'.storage action name (h'.env n) caller msg st := by
    have hchain : (h.env n).chain = (h'.env n).chain := hs.chain
    have hheight : (h.env n).height = (h'.env n).height := rfl
    rw [Service.invoke_timeless hsv h.storage action name hchain hheight, hstorage, hs.service]
  simp only [work, hopen, hwrite, hinvoke]

/-- A call ends alike on hosts that agree and break down in the same way. -/
theorem invoke_same {h h' : Host} (hs : h.Same h') (hb : h.breakdown = h'.breakdown)
    (hsv : h.service.Timeless) (action : Action) (caller : Address) (name : Bytes) (msg : Payload) :
    (h.invoke action caller name msg).outcome = (h'.invoke action caller name msg).outcome ∧
      (h.invoke action caller name msg).host.Same (h'.invoke action caller name msg).host := by
  have hwork := work_same hs hb hsv action caller name msg
  have hparts : (h.invoke action caller name msg).outcome = (h'.invoke action caller name msg).outcome ∧
      (h.invoke action caller name msg).host.database = (h'.invoke action caller name msg).host.database := by
    simp only [invoke, ← hb, ← hs.database]
    split
    · exact ⟨rfl, hs.database⟩
    split
    · exact ⟨rfl, hs.database⟩
    cases h.database.start true with
    | error e => exact ⟨rfl, hs.database⟩
    | ok tx =>
      simp only [← hwork]
      rcases h.database.finish (h.work action caller name msg tx).outcome (h.work action caller name msg tx).tx
        with ⟨_ | _ | _, callbacks, database⟩
      · simp only
        split <;> exact ⟨rfl, rfl⟩
      · exact ⟨rfl, rfl⟩
      · exact ⟨rfl, rfl⟩
  obtain ⟨_, _, hx⟩ := h.invoke_host action caller name msg
  obtain ⟨_, _, hx'⟩ := h'.invoke_host action caller name msg
  refine ⟨hparts.1, ?_, ?_, hparts.2⟩
  · rw [hx, hx']; exact hs.service
  · rw [hx, hx']; exact hs.chain

/-- A request as it is made: at some time, and with a breakdown of its own. -/
structure Attempt where
  request : Request
  breakdown : Option Breakdown := none
  clock : Int := 0

/-- The same request with the same breakdown, possibly at another time. -/
def Attempt.Again (a b : Attempt) : Prop := a.request = b.request ∧ a.breakdown = b.breakdown

/-- Whether the reply is that of a call that was committed. -/
def Reply.committed : Reply → Bool
  | .response (.ok _) => true
  | _ => false

end Host

namespace Ledger

/-! ## Runs without the failed calls -/

/-- The ledger at the time of an attempt, with the breakdown of the attempt. -/
def facing (l : Ledger) (a : Host.Attempt) : Ledger :=
  { l with host := { l.host with breakdown := a.breakdown, clock := a.clock } }

theorem Quiet.facing {l : Ledger} (h : l.Quiet) (a : Host.Attempt) : (l.facing a).Quiet := h.atHost _

/-- Makes an attempt. -/
def attempt (a : Host.Attempt) (l : Ledger) : Host.Reply × Ledger := (l.facing a).serve a.request

/-- The attempts of a run that are committed calls. -/
def committedAttempts (l : Ledger) (as : List Host.Attempt) : List Host.Attempt :=
  ((as.zip (transcript attempt as l).1).filter fun p => p.2.committed).map Prod.fst

theorem committedAttempts_cons (l : Ledger) (a : Host.Attempt) (as : List Host.Attempt) :
    l.committedAttempts (a :: as) =
      if (l.attempt a).1.committed then a :: (l.attempt a).2.committedAttempts as
      else (l.attempt a).2.committedAttempts as := by
  simp only [committedAttempts, transcript, List.zip_cons_cons, List.filter_cons]
  split <;> rfl

/-- The ledgers agree in all that contracts can see, and no observer touches them. -/
structure Alike (l m : Ledger) : Prop where
  host : l.host.Same m.host
  quiet : l.Quiet
  quiet' : m.Quiet

/-- An attempt that is no committed call leaves the ledger as contracts see it. -/
theorem attempt_idle {a : Host.Attempt} (hb : a.breakdown ≠ some .noCallbacks) {l : Ledger} (hq : l.Quiet)
    (hf : (l.attempt a).1.committed = false) :
    (l.attempt a).2.host.Same l.host ∧ (l.attempt a).2.Quiet := by
  unfold attempt at hf ⊢
  cases hr : a.request with
  | call action caller name msg =>
    obtain ⟨ho, hhost, hquiet⟩ := call_quiet (hq.facing a) action caller name msg
    obtain ⟨database, metrics, hx⟩ := (l.facing a).host.invoke_host action caller name msg
    have hfailed : ∀ e, ((l.facing a).host.invoke action caller name msg).outcome ≠ .ok e := by
      intro e he
      simp [hr, serve, ho, he, Outcome.map, Host.Reply.committed] at hf
    have hdb := Host.invoke_failed (show (l.facing a).host.breakdown ≠ _ from hb) action caller name msg hfailed
    simp only [serve]
    refine ⟨⟨?_, ?_, ?_⟩, hquiet⟩
    · rw [hhost, hx]; rfl
    · rw [hhost, hx]; rfl
    · rw [hhost, hdb]; rfl
  | query name msg =>
    obtain ⟨metrics, hx⟩ := (l.facing a).host.query_host name msg
    simp only [serve, hx]
    exact ⟨⟨rfl, rfl, rfl⟩, hq.atHost _⟩
  | height => exact ⟨⟨rfl, rfl, rfl⟩, hq.facing a⟩
  | info name => exact ⟨⟨rfl, rfl, rfl⟩, hq.facing a⟩

/-- A committed call ends alike when it is made again on a ledger that agrees. -/
theorem attempt_again {a b : Host.Attempt} (hab : a.Again b) {l m : Ledger} (h : l.Alike m)
    (hsv : l.host.service.Timeless) (hc : (l.attempt a).1.committed = true) :
    (m.attempt b).1 = (l.attempt a).1 ∧ (l.attempt a).2.Alike (m.attempt b).2 := by
  obtain ⟨hrequest, hbreakdown⟩ := hab
  unfold attempt at hc ⊢
  rw [← hrequest]
  cases hr : a.request with
  | call action caller name msg =>
    obtain ⟨ho, hhost, hquiet⟩ := call_quiet (h.quiet.facing a) action caller name msg
    obtain ⟨ho', hhost', hquiet'⟩ := call_quiet (h.quiet'.facing b) action caller name msg
    obtain ⟨hout, hsame⟩ := Host.invoke_same
      (show (l.facing a).host.Same (m.facing b).host from ⟨h.host.service, h.host.chain, h.host.database⟩)
      hbreakdown hsv action caller name msg
    simp only [serve]
    exact ⟨by rw [ho, ho', hout], by rw [hhost, hhost']; exact hsame, hquiet, hquiet'⟩
  | query name msg => simp [hr, serve, Host.Reply.committed] at hc
  | height => simp [hr, serve, Host.Reply.committed] at hc
  | info name => simp [hr, serve, Host.Reply.committed] at hc

/-- The committed calls of a run, made again on a ledger that agrees with the first, are the
committed calls of the run. -/
theorem run_committed {as bs : List Host.Attempt} {l m : Ledger} (h : l.Alike m) (hsv : l.host.service.Timeless)
    (hb : ∀ a ∈ as, a.breakdown ≠ some .noCallbacks)
    (hbs : List.Forall₂ Host.Attempt.Again (l.committedAttempts as) bs) :
    (transcript attempt bs m).1 = (transcript attempt as l).1.filter Host.Reply.committed ∧
      (transcript attempt as l).2.Alike (transcript attempt bs m).2 := by
  induction as generalizing l m bs with
  | nil =>
    cases hbs
    exact ⟨rfl, h⟩
  | cons a as ih =>
    have hrest : ∀ a' ∈ as, a'.breakdown ≠ some .noCallbacks := fun a' ha => hb a' (List.mem_cons_of_mem _ ha)
    rw [committedAttempts_cons] at hbs
    simp only [transcript, List.filter_cons]
    cases hc : (l.attempt a).1.committed with
    | false =>
      rw [hc] at hbs
      -- only the first run makes this attempt, and it leaves nothing that the second would see
      obtain ⟨hsame, hquiet⟩ := attempt_idle (hb a List.mem_cons_self) h.quiet hc
      have halike : (l.attempt a).2.Alike m :=
        ⟨⟨hsame.service.trans h.host.service, hsame.chain.trans h.host.chain, hsame.database.trans h.host.database⟩,
          hquiet, h.quiet'⟩
      exact ih halike (by rw [hsame.service]; exact hsv) hrest hbs
    | true =>
      rw [hc, if_pos rfl] at hbs
      obtain _ | @⟨_, b, _, bs, hab, hbs⟩ := hbs
      obtain ⟨hreply, halike⟩ := attempt_again hab h hsv hc
      have hservice : (l.attempt a).2.host.service = l.host.service := serve_service a.request (l.facing a)
      obtain ⟨hreplies, hafter⟩ := ih halike (by rw [hservice]; exact hsv) hrest hbs
      simp only [transcript]
      exact ⟨by rw [hreply, hreplies, if_pos trivial], hafter⟩

/-- Failed calls can be erased from a run, and so can all requests that only read. The calls that
remain, made again from the same ledger at any times, get the replies that they got, and leave the
same database; an attempt that is no committed call leaves the database as it finds it. Each attempt
may have a breakdown of its own, of any kind that does not hide a commit; the contracts do not look
at the time, and the observers neither panic nor touch the host. -/
theorem failed_calls_erasable (l : Ledger) (hsv : l.host.service.Timeless) (hq : l.Quiet)
    (as : List Host.Attempt) (hb : ∀ a ∈ as, a.breakdown ≠ some .noCallbacks) :
    (∀ bs, List.Forall₂ Host.Attempt.Again (l.committedAttempts as) bs →
        (transcript attempt bs l).1 = (transcript attempt as l).1.filter Host.Reply.committed ∧
          (transcript attempt bs l).2.host.database = (transcript attempt as l).2.host.database) ∧
      ∀ before a after, as = before ++ a :: after →
        ((transcript attempt before l).2.attempt a).1.committed = false →
          ((transcript attempt before l).2.attempt a).2.host.database =
            (transcript attempt before l).2.host.database := by
  constructor
  · intro bs hbs
    obtain ⟨hreplies, halike⟩ := run_committed ⟨⟨rfl, rfl, rfl⟩, hq, hq⟩ hsv hb hbs
    exact ⟨hreplies, halike.host.database.symm⟩
  · rintro before a after rfl hf
    have hquiet : (transcript attempt before l).2.Quiet :=
      transcript_invariant (I := Quiet)
        (fun (b : Host.Attempt) _ (l' : Ledger) hl' => serve_quiet (hl'.facing b) b.request) hq
    exact (attempt_idle (hb a (by simp)) hquiet hf).1.database

/-- A contract that keeps the message, and is cut off afterwards when there is none. -/
def keeper : Contract where
  instantiate _ _ msg := do
    Program.write [0x6b] msg
    if msg.isNone then .abort none else pure {}
  execute _ _ msg := do
    Program.write [0x6b] msg
    if msg.isNone then .abort none else pure {}
  query _ _ := Reading.read [0x6b]

/-- A ledger with that contract only. An object watches that sends itself away when it is told of an
event, and a slice watches twice. -/
def keeperLedger : Ledger where
  host := { service := { contracts := Table.empty.insert [0x6b] (some keeper) } }
  watcher := [.handle [1], .value (.closed [0x73] [2]), .value (.closed [0x73] [2])]
  plans := [(.handle [1], [.unwatch (.handle [1])])]

/-- Two calls that are committed, and between them one whose height cannot be written, one that is
cut off after it has written, and a query. -/
def keeperAttempts : List Host.Attempt :=
  [{ request := .call .instantiate ⟨[0x61]⟩ [0x6b] (some [1]) },
    { request := .call .execute ⟨[0x61]⟩ [0x6b] (some [2]), breakdown := some .hostSet, clock := 5 },
    { request := .call .execute ⟨[0x61]⟩ [0x6b] none },
    { request := .query [0x6b] none },
    { request := .call .execute ⟨[0x62]⟩ [0x6b] (some [3]), clock := 9 }]

theorem failed_calls_erasable_keeper :
    keeperLedger.host.service.Timeless ∧ keeperLedger.Quiet ∧
      (∀ a ∈ keeperAttempts, a.breakdown ≠ some .noCallbacks) ∧
      ∀ bs, List.Forall₂ Host.Attempt.Again (keeperLedger.committedAttempts keeperAttempts) bs →
        (transcript attempt bs keeperLedger).1 =
            (transcript attempt keeperAttempts keeperLedger).1.filter Host.Reply.committed ∧
          (transcript attempt bs keeperLedger).2.host.database =
            (transcript attempt keeperAttempts keeperLedger).2.host.database := by
  have htimeless : keeperLedger.host.service.Timeless := by
    intro name c hc action env env' sender msg _ _
    obtain rfl : c = keeper := by
      simp only [keeperLedger, Service.find?, Table.get?_insert] at hc
      split at hc <;> cases hc
      rfl
    cases action <;> rfl
  have hquiet : keeperLedger.Quiet := ⟨⟨by decide, by simp [keeperLedger, Reaction.Regular]⟩,
    by simp [keeperLedger, Plans.Quiet, Reaction.Quiet]⟩
  have hbreakdown : ∀ a ∈ keeperAttempts, a.breakdown ≠ some .noCallbacks := by decide
  exact ⟨htimeless, hquiet, hbreakdown,
    (failed_calls_erasable keeperLedger htimeless hquiet keeperAttempts hbreakdown).1⟩

end Ledger

end CounterLedger
