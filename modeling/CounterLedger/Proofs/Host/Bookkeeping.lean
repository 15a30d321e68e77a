/-
The books of a host agree. As long as observers neither panic nor call the host to change it, the
height is the number of calls that returned a response, and so is the sum of the counters of the
accepted calls. Each such call was told the height that is read after it, and was announced with this
height to every observer that watched, of whatever kind, once for each of its entries in the list;
other calls left no trace in the books.
-/
import CounterLedger.Contract.Sample
import CounterLedger.Proofs.Host.Session

namespace CounterLedger

namespace Host

/-- The answer to a query of which the contract is told that the chain is that of the host, at the
height, and that the time is that of its clock. -/
def answerAt (h : Host) (height : UInt64) (name : Bytes) (msg : Payload) : Outcome Payload :=
  match h.service.find? name with
  | none => .error (.fault (.unknownContract name))
  | some c => ((c.query ⟨h.chain, height, h.clock⟩ msg).run (Memory.store.scoped name).toSource (contents h.database)).1

theorem query_answerAt {h : Host} (hh : h.Works) (name : Bytes) (msg : Payload) :
    (h.query name msg).outcome = h.answerAt (keptHeight h.database) name msg := query_works hh name msg

/-- The event of a committed call: the contract's program ran at the next height on what the
database held, and the event has what it returned. -/
theorem event_of_invoke {h : Host} (hh : h.Works) {action : Action} {caller : Address} {name : Bytes} {msg : Payload}
    {e : Event} (he : (h.invoke action caller name msg).outcome = .ok e) :
    e = event action caller name (keptHeight h.database + 1) e.response ∧
      ∃ c, h.service.find? name = some c ∧
        (((c.program action ⟨h.chain, keptHeight h.database + 1, h.clock⟩ caller msg).scoped name).run Memory.store
          (contents h.database)).outcome = .ok e.response := by
  have hcaller : caller.isEmpty = false := by
    cases hc : caller.isEmpty with
    | false => rfl
    | true =>
      rw [invoke_no_caller h action hc] at he
      cases he
  have hmemory := (invoke_memory hh action hcaller name msg).1
  rw [he] at hmemory
  cases hr : (h.service.invoke Memory.store action name (h.env (keptHeight h.database + 1)) caller msg
    (contents h.database)).outcome with
  | error reason =>
    rw [hr] at hmemory
    cases hmemory
  | abort reason =>
    rw [hr] at hmemory
    cases hmemory
  | ok res =>
    rw [hr] at hmemory
    cases hmemory
    exact ⟨rfl, Service.program_of_invoke_memory hr⟩

end Host

namespace Ledger

/-! ## Observers that do not change the host -/

/-- No observer has planned a state-changing call. -/
def Plans.Passive (ps : Plans) : Prop := ∀ p ∈ ps, ∀ r ∈ p.2, r.Passive

theorem Plans.Passive.take {ps : Plans} (h : ps.Passive) (o : Observer) :
    (∀ r ∈ (ps.take o).1, r.Passive) ∧ Plans.Passive (ps.take o).2 := Plans.take_all h o

/-! ## What an announcement records -/

/-- What comes out of a passive reaction when the host stands at a height. -/
def replyAt (h : Host) (height : UInt64) : Reaction → Reacted
  | .query name msg => .answer (h.answerAt height name msg)
  | _ => .nothing

/-- The records of passive tasks, each reaction with its reply. The number is that of the next
notification. -/
def foretell (reply : Reaction → Reacted) : Plans → Nat → List Task → List Record
  | _, _, [] => []
  | ps, n, .notify o e :: rest =>
    .notified o e :: ((ps.take o).1.map (fun r => .reacted n (reply r)) ++ foretell reply (ps.take o).2 (n + 1) rest)
  | ps, n, .react m r :: rest => .reacted m (reply r) :: foretell reply ps n rest
  | ps, n, .settle m r :: rest => .reacted m r :: foretell reply ps n rest

theorem foretell_ofReactions (reply : Reaction → Reacted) (ps : Plans) (n m : Nat) (rs : List Reaction)
    (rest : List Task) :
    foretell reply ps n (Task.ofReactions m rs ++ rest) =
      rs.map (fun r => .reacted m (reply r)) ++ foretell reply ps n rest := by
  induction rs with
  | nil => rfl
  | cons r rs ih => simpa [Task.ofReactions, foretell] using ih

/-- The announcement of an event notifies those that watch, in order. -/
theorem notices_foretell (reply : Reaction → Reacted) (ps : Plans) (n : Nat) (w : Watcher) (e : Event) :
    notices (foretell reply ps n (Task.ofEvent w e)) = w.map fun o => (o, e) := by
  induction w generalizing ps n with
  | nil => rfl
  | cons o rest ih =>
    have hreactions : ((ps.take o).1.map fun r => Record.reacted n (reply r)).filterMap Record.notice = [] := by
      simp [Record.notice, List.filterMap_map]
    simp only [notices, Task.ofEvent] at ih
    simp only [notices, Task.ofEvent, List.map_cons, foretell, List.filterMap_cons, Record.notice, List.filterMap_append,
      hreactions, List.nil_append, ih]

/-- An announcement so far: the host is the one that began it but for its metrics, in which the same
calls are accepted. -/
structure Calm (h : Host) (l : Ledger) : Prop where
  host : ∃ m, l.host = { h with metrics := m } ∧ m.accepted = h.metrics.accepted
  plans : l.plans.Passive
  distinct : l.watcher.Distinct

/-- A query of an observer is answered from the host as it was when the announcement began. -/
theorem Calm.query {h : Host} (hh : h.Works) {l : Ledger} (hl : Calm h l) (name : Bytes) (msg : Payload) :
    Calm h { l with host := (l.host.query name msg).host } ∧
      (l.host.query name msg).outcome = h.answerAt (Host.keptHeight h.database) name msg := by
  obtain ⟨m, hm, ha⟩ := hl.host
  have haccepted := l.host.query_accepted name msg
  obtain ⟨m', hm'⟩ := l.host.query_host name msg
  rw [hm'] at haccepted
  refine ⟨⟨⟨m', ?_, ?_⟩, hl.plans, hl.distinct⟩, ?_⟩
  · show (l.host.query name msg).host = _
    rw [hm', hm]
  · exact haccepted.trans (by rw [hm]; exact ha)
  · rw [hm]
    exact Host.query_answerAt (h := { h with metrics := m }) ⟨hh.sound, hh.isOpen⟩ name msg

theorem Progress.reverse_note (p : Progress) (r : Record) (rs : List Record) :
    (p.note r).records.reverse ++ rs = p.records.reverse ++ r :: rs := by
  simp [note]

/-- Passive tasks change nothing but metrics and the list of observers. When they are all done the
records are those that were foretold, and they are all done if no observer panics by itself and no
query is cut off. -/
theorem runTasks_passive {h : Host} (hh : h.Works) (p : Progress) (tasks : List Task) (hp : Calm h p.ledger)
    (ht : ∀ t ∈ tasks, t.Passive) :
    Calm h (runTasks p tasks).2.ledger ∧
      ((runTasks p tasks).1 = .ok () → (runTasks p tasks).2.records.reverse = p.records.reverse ++
        foretell (replyAt h (Host.keptHeight h.database)) p.ledger.plans p.notices tasks) ∧
      (p.ledger.Regular → (∀ t ∈ tasks, t.Regular) →
        (∀ name msg reason, h.answerAt (Host.keptHeight h.database) name msg ≠ .abort reason) →
        (runTasks p tasks).1 = .ok ()) := by
  fun_induction runTasks p tasks with
  | case1 p => exact ⟨hp, fun _ => by simp [foretell], fun _ _ _ => rfl⟩
  | case2 p e rest =>
    refine ⟨hp, fun hdone => ?_, fun _ hregular => ?_⟩
    · cases hdone
    · exact absurd rfl (List.forall_mem_cons.1 hregular).1
  | case3 p o e rest ho next ih =>
    obtain ⟨hreactions, hothers⟩ := hp.plans.take o
    have hpassive : ∀ t ∈ Task.ofReactions p.notices next.2 ++ rest, t.Passive :=
      List.forall_mem_append.2 ⟨Task.forall_ofReactions hreactions, (List.forall_mem_cons.1 ht).2⟩
    obtain ⟨hcalm, hrecords, hends⟩ := ih ⟨hp.host, hothers, hp.distinct⟩ hpassive
    refine ⟨hcalm, fun hdone => ?_, fun hregular htasks => ?_⟩
    · rw [hrecords hdone, foretell_ofReactions]
      simp [next, Progress.notify, Progress.note, foretell]
    · obtain ⟨hregulars, hplans⟩ := Plans.take_all hregular.plans o
      exact hends ⟨hregular.present, hplans⟩ (List.forall_mem_append.2
        ⟨Task.forall_ofReactions hregulars, (List.forall_mem_cons.1 htasks).2⟩)
  | case4 p n r rest ih =>
    obtain ⟨hcalm, hrecords, hends⟩ := ih hp (List.forall_mem_cons.1 ht).2
    exact ⟨hcalm, fun hdone => (hrecords hdone).trans (Progress.reverse_note _ _ _),
      fun hregular htasks => hends hregular (List.forall_mem_cons.1 htasks).2⟩
  | case5 p n o rest hadd =>
    refine ⟨hp, fun hdone => ?_, fun _ htasks => ?_⟩
    · cases hdone
    · exact absurd (Watcher.add_eq_none_iff.1 hadd)
        (Watcher.not_clashes_of_regular _ (List.forall_mem_cons.1 htasks).1)
  | case6 p n o rest w hadd ih =>
    obtain rfl := Watcher.eq_joined hadd
    obtain ⟨hcalm, hrecords, hends⟩ := ih ⟨hp.host, hp.plans, hp.distinct.joined o⟩ (List.forall_mem_cons.1 ht).2
    refine ⟨hcalm, fun hdone => (hrecords hdone).trans (Progress.reverse_note _ _ _), fun hregular htasks => ?_⟩
    obtain ⟨ho, hrest⟩ := List.forall_mem_cons.1 htasks
    exact hends (hregular.joined ho) hrest
  | case7 p n o rest hremove =>
    refine ⟨hp, fun hdone => ?_, fun _ htasks => ?_⟩
    · cases hdone
    · exact absurd (Watcher.remove_eq_none_iff.1 hremove)
        (Watcher.not_clashes_of_regular _ (List.forall_mem_cons.1 htasks).1)
  | case8 p n o rest w hremove ih =>
    obtain rfl := Watcher.eq_left hremove
    obtain ⟨hcalm, hrecords, hends⟩ := ih ⟨hp.host, hp.plans, hp.distinct.left o⟩ (List.forall_mem_cons.1 ht).2
    exact ⟨hcalm, fun hdone => (hrecords hdone).trans (Progress.reverse_note _ _ _),
      fun hregular htasks => hends (hregular.left o) (List.forall_mem_cons.1 htasks).2⟩
  | case9 p n name msg rest r reason hr =>
    obtain ⟨hasked, hanswer⟩ := hp.query hh name msg
    refine ⟨hasked, fun hdone => ?_, fun _ _ hnone => ?_⟩
    · cases hdone
    · exact absurd (hanswer.symm.trans hr) (hnone name msg reason)
  | case10 p n name msg rest r hr ih =>
    obtain ⟨hasked, hanswer⟩ := hp.query hh name msg
    obtain ⟨hcalm, hrecords, hends⟩ := ih hasked (List.forall_mem_cons.1 ht).2
    refine ⟨hcalm, fun hdone => ?_, fun hregular htasks =>
      hends (hregular.atHost _) (List.forall_mem_cons.1 htasks).2⟩
    rw [hrecords hdone, Progress.reverse_note]
    simp only [foretell, replyAt, ← hanswer]
    rfl
  -- a state-changing call is no passive task
  | case11 | case12 | case13 => exact (ht _ List.mem_cons_self).elim

/-! ## The books -/

/-- Nothing has happened yet: the database is empty, no call is counted, and nobody watches. -/
structure Fresh (l : Ledger) : Prop where
  sound : l.host.breakdown = none
  database : l.host.database = {}
  metrics : l.host.metrics = {}
  watcher : l.watcher = []

/-- The command plans no state-changing call. -/
def Command.Passive : Command → Prop
  | .plan _ reactions => ∀ r ∈ reactions, r.Passive
  | _ => True

/-- No observer panics when it is told about a call: what the host has committed comes back with a
response. -/
def Unharmed (l : Ledger) : Command → Prop
  | .call action caller name msg =>
    ∀ e, (l.host.invoke action caller name msg).outcome = .ok e →
      ∃ res, (l.call action caller name msg).outcome = .ok res
  | _ => True

/-- No observer panics while the commands are carried out. -/
def Undisturbed : List Command → Ledger → Prop
  | [], _ => True
  | c :: rest, l => l.Unharmed c ∧ Undisturbed rest (obey c l).2

/-- Both books say that `n` calls were committed. -/
structure Books (n : Nat) (l : Ledger) : Prop where
  height : l.host.height = .ok (UInt64.ofNat n)
  accepted : l.host.metrics.accepted = n

/-- A call that returned a response, when `n` calls had done so before: the contract was told that the
height is the next one, which is the height afterwards, and of the chain and the clock of the host.
Each entry of the list of observers was told once, and only observers that are not equal to
themselves have several. The queries that they made were answered at this height. -/
structure Entered (n : Nat) (l : Ledger) (action : Action) (caller : Address) (name : Bytes) (msg : Payload)
    (res : Response) (x : Called) : Prop where
  books : Books (n + 1) x.ledger
  ran : ∃ c, l.host.service.find? name = some c ∧
    (((c.program action ⟨l.host.chain, UInt64.ofNat (n + 1), l.host.clock⟩ caller msg).scoped name).run Memory.store
      (Host.contents l.host.database)).outcome = .ok res
  told : notices x.records = l.watcher.map fun o => (o, Host.event action caller name (UInt64.ofNat (n + 1)) res)
  once : l.watcher.Distinct
  records : x.records = foretell (replyAt x.ledger.host (UInt64.ofNat (n + 1))) l.plans 0
    (Task.ofEvent l.watcher (Host.event action caller name (UInt64.ofNat (n + 1)) res))

/-- How a command is accounted for when `n` calls returned a response before it. -/
def Accounted (n : Nat) (l : Ledger) (c : Command) : Prop :=
  match c with
  | .call action caller name msg =>
    match (l.call action caller name msg).outcome with
    | .ok res => Entered n l action caller name msg res (l.call action caller name msg)
    | _ => Books n (l.call action caller name msg).ledger ∧ (l.call action caller name msg).records = []
  | .query name msg =>
    Books n (obey (.query name msg) l).2 ∧
      (obey (.query name msg) l).1.answer = some (l.host.answerAt (UInt64.ofNat n) name msg)
  | c => Books n (obey c l).2

/-- What every command keeps: the host follows the one at the start, no observer plans a
state-changing call, and an observer that is equal to itself watches once. -/
structure Steady (h₀ : Host) (l : Ledger) : Prop where
  follows : h₀.Follows l.host
  plans : l.plans.Passive
  distinct : l.watcher.Distinct

theorem Fresh.reached {l₀ : Ledger} (hfresh : l₀.Fresh) (h : Host) : l₀.host.reached h = h.metrics.accepted := by
  rw [Host.reached, hfresh.database, hfresh.metrics]
  exact Nat.zero_add _

theorem Steady.books {l₀ l : Ledger} (hfresh : l₀.Fresh) (hl : Steady l₀.host l) :
    Books l.host.metrics.accepted l := by
  refine ⟨?_, rfl⟩
  rw [Host.height_works hl.follows.works, hl.follows.height, hfresh.reached]

/-- What all planned reactions have in common they still have when an observer sets others that have
it. -/
theorem plan_all {P : Reaction → Prop} {l : Ledger} (h : ∀ p ∈ l.plans, ∀ r ∈ p.2, P r) {o : Observer}
    {rs : List Reaction} (hrs : ∀ r ∈ rs, P r) : ∀ p ∈ (l.plan o rs).plans, ∀ r ∈ p.2, P r :=
  List.forall_mem_cons.2 ⟨hrs, (Plans.take_all h o).2⟩

/-- A committed call among passive observers, of which none panics. -/
theorem Steady.committed {l₀ l : Ledger} (hfresh : l₀.Fresh) (hl : Steady l₀.host l) {action : Action}
    {caller : Address} {name : Bytes} {msg : Payload} {e : Event}
    (he : (l.host.invoke action caller name msg).outcome = .ok e)
    (hback : ∃ res, (l.call action caller name msg).outcome = .ok res) :
    Steady l₀.host (l.call action caller name msg).ledger ∧
      (l.call action caller name msg).outcome = .ok e.response ∧
      Entered l.host.metrics.accepted l action caller name msg e.response (l.call action caller name msg) := by
  obtain ⟨hfollows, -⟩ := hl.follows.invoke action caller name msg
  obtain ⟨hheight, hgrown⟩ := hl.follows.committed he
  obtain ⟨hevent, hran⟩ := Host.event_of_invoke hl.follows.works he
  rw [hfresh.reached] at hheight
  rw [hfresh.reached, hfresh.reached] at hgrown
  have hnow : Host.keptHeight (l.host.invoke action caller name msg).host.database =
      UInt64.ofNat (l.host.metrics.accepted + 1) := by
    rw [hfollows.height, hfresh.reached, hgrown]
  have hnext : Host.keptHeight l.host.database + 1 = UInt64.ofNat (l.host.metrics.accepted + 1) := by
    rw [← hheight, hevent]
    rfl
  rw [hnext] at hevent hran
  -- the announcement changes no more than metrics and the list of observers
  obtain ⟨hout, hledger, hrecords⟩ := call_of_ok he
  have hcalm : Calm (l.host.invoke action caller name msg).host
      { l with host := (l.host.invoke action caller name msg).host } :=
    ⟨⟨_, rfl, rfl⟩, hl.plans, hl.distinct⟩
  obtain ⟨⟨⟨m, hhost, hm⟩, hplans, hdistinct⟩, hforetold, -⟩ := runTasks_passive hfollows.works
    { ledger := { l with host := (l.host.invoke action caller name msg).host } } (Task.ofEvent l.watcher e) hcalm
    (Task.forall_ofEvent fun _ _ => trivial)
  rw [← hledger] at hhost hplans hdistinct
  rw [← hrecords, hnow] at hforetold
  have hsteady : Steady l₀.host (l.call action caller name msg).ledger := by
    refine ⟨?_, hplans, hdistinct⟩
    rw [hhost]
    exact hfollows.congr rfl rfl hm
  have haccepted : (l.call action caller name msg).ledger.host.metrics.accepted = l.host.metrics.accepted + 1 := by
    rw [hhost]
    exact hm.trans hgrown
  have hdone := call_done he hback
  have hrecorded : (l.call action caller name msg).records = foretell
      (replyAt (l.call action caller name msg).ledger.host (UInt64.ofNat (l.host.metrics.accepted + 1))) l.plans 0
      (Task.ofEvent l.watcher e) := by
    rw [hforetold hdone, hhost]
    rfl
  refine ⟨hsteady, by rw [hout, hdone]; rfl, ?_, hran, ?_, hl.distinct, ?_⟩
  · rw [← haccepted]
    exact hsteady.books hfresh
  · rw [hrecorded, notices_foretell, ← hevent]
  · rw [← hevent]
    exact hrecorded

/-- A call that the host does not commit leaves the books as they are. -/
theorem Steady.refused {l₀ l : Ledger} (hfresh : l₀.Fresh) (hl : Steady l₀.host l) {action : Action}
    {caller : Address} {name : Bytes} {msg : Payload}
    (hnot : ∀ e, (l.host.invoke action caller name msg).outcome ≠ .ok e) :
    Steady l₀.host (l.call action caller name msg).ledger ∧
      (∀ res, (l.call action caller name msg).outcome ≠ .ok res) ∧
      Books l.host.metrics.accepted (l.call action caller name msg).ledger ∧
      (l.call action caller name msg).records = [] := by
  obtain ⟨hout, hledger, hrecords⟩ := call_of_not_ok hnot
  obtain ⟨hfollows, hinvoke⟩ := hl.follows.invoke action caller name msg
  have hsteady : Steady l₀.host (l.call action caller name msg).ledger := by
    rw [hledger]
    exact ⟨hfollows, hl.plans, hl.distinct⟩
  have hbooks := hsteady.books hfresh
  rw [hledger] at hbooks
  rw [hout, hledger]
  rw [hledger] at hsteady
  cases hr : (l.host.invoke action caller name msg).outcome with
  | ok e => exact absurd hr (hnot e)
  | error reason =>
    rw [hr] at hinvoke
    rw [hinvoke.2] at hbooks
    exact ⟨hsteady, (fun _ h => by cases h), hbooks, hrecords⟩
  | abort reason =>
    rw [hr] at hinvoke
    rw [hinvoke.2] at hbooks
    exact ⟨hsteady, (fun _ h => by cases h), hbooks, hrecords⟩

/-- One command: it is accounted for, and counts if it is a call that returned a response. -/
theorem Steady.step {l₀ l : Ledger} (hfresh : l₀.Fresh) (hl : Steady l₀.host l) {c : Command} (hc : c.Passive)
    (hquiet : l.Unharmed c) :
    Steady l₀.host (l.obey c).2 ∧ Accounted l.host.metrics.accepted l c ∧
      (l.obey c).2.host.metrics.accepted =
        l.host.metrics.accepted + if (l.obey c).1.committed then 1 else 0 := by
  cases c with
  | call action caller name msg =>
    by_cases hok : ∃ e, (l.host.invoke action caller name msg).outcome = .ok e
    · obtain ⟨e, he⟩ := hok
      obtain ⟨hsteady, hres, hentered⟩ := hl.committed hfresh he (hquiet e he)
      refine ⟨hsteady, ?_, ?_⟩
      · simp only [Accounted, hres]
        exact hentered
      · rw [committed_call hres]
        exact hentered.books.accepted
    · obtain ⟨hsteady, hnone, hbooks, hrecords⟩ := hl.refused hfresh fun e he => hok ⟨e, he⟩
      refine ⟨hsteady, ?_, ?_⟩
      · simp only [Accounted]
        exact ⟨hbooks, hrecords⟩
      · have hno : (l.obey (.call action caller name msg)).1.committed = false := by
          simp only [obey, Sight.committed]
          split
          · next res hres => exact absurd (Option.some.inj hres) (hnone res)
          · rfl
        rw [hno]
        exact hbooks.accepted
  | query name msg =>
    have hsteady : Steady l₀.host { l with host := (l.host.query name msg).host } :=
      ⟨hl.follows.query name msg, hl.plans, hl.distinct⟩
    have haccepted : (l.host.query name msg).host.metrics.accepted = l.host.metrics.accepted :=
      l.host.query_accepted name msg
    refine ⟨hsteady, ⟨?_, ?_⟩, haccepted⟩
    · rw [← haccepted]
      exact hsteady.books hfresh
    · rw [← hfresh.reached, ← hl.follows.height, ← Host.query_answerAt hl.follows.works]
      rfl
  | watch o =>
    have hsteady : Steady l₀.host (l.watch o).2 := by
      rw [watch_eq]
      exact ⟨hl.follows, hl.plans, watch_distinct hl.distinct o⟩
    have haccepted : (l.watch o).2.host.metrics.accepted = l.host.metrics.accepted := by rw [watch_eq]
    exact ⟨hsteady, haccepted ▸ hsteady.books hfresh, haccepted⟩
  | unwatch o =>
    have hsteady : Steady l₀.host (l.unwatch o).2 := by
      rw [unwatch_eq]
      exact ⟨hl.follows, hl.plans, unwatch_distinct hl.distinct o⟩
    have haccepted : (l.unwatch o).2.host.metrics.accepted = l.host.metrics.accepted := by rw [unwatch_eq]
    exact ⟨hsteady, haccepted ▸ hsteady.books hfresh, haccepted⟩
  | plan o reactions =>
    have hsteady : Steady l₀.host (l.plan o reactions) := ⟨hl.follows, plan_all hl.plans hc, hl.distinct⟩
    exact ⟨hsteady, hsteady.books hfresh, rfl⟩
  | tick time =>
    have hsteady : Steady l₀.host { l with host := { l.host with clock := time } } :=
      ⟨hl.follows.congr rfl rfl rfl, hl.plans, hl.distinct⟩
    exact ⟨hsteady, hsteady.books hfresh, rfl⟩

theorem Undisturbed.append {as bs : List Command} {l : Ledger} (h : Undisturbed (as ++ bs) l) :
    Undisturbed as l ∧ Undisturbed bs (transcript obey as l).2 := by
  induction as generalizing l with
  | nil => exact ⟨trivial, h⟩
  | cons c rest ih =>
    obtain ⟨hc, hrest⟩ := h
    obtain ⟨hrest, hbs⟩ := ih hrest
    exact ⟨⟨hc, hrest⟩, hbs⟩

/-- A run of commands counts the calls that returned a response. -/
theorem Steady.run {l₀ l : Ledger} (hfresh : l₀.Fresh) (hl : Steady l₀.host l) {cs : List Command}
    (hcs : ∀ c ∈ cs, c.Passive) (hquiet : Undisturbed cs l) :
    Steady l₀.host (transcript obey cs l).2 ∧
      (transcript obey cs l).2.host.metrics.accepted =
        l.host.metrics.accepted + (transcript obey cs l).1.countP Sight.committed := by
  induction cs generalizing l with
  | nil => exact ⟨hl, rfl⟩
  | cons c rest ih =>
    obtain ⟨hc, hrest⟩ := hquiet
    obtain ⟨hnext, -, haccepted⟩ := hl.step hfresh (hcs c List.mem_cons_self) hc
    obtain ⟨hlast, hcount⟩ := ih hnext (fun c hc => hcs c (List.mem_cons_of_mem _ hc)) hrest
    refine ⟨hlast, ?_⟩
    simp only [transcript, List.countP_cons]
    rw [hcount, haccepted]
    omega

/-- The command adds no observer, and plans for none, that panics by itself. -/
def Command.Regular : Command → Prop
  | .watch o => o.regular
  | .plan _ reactions => ∀ r ∈ reactions, r.Regular
  | _ => True

/-- Regular commands keep observers from panicking by themselves. -/
theorem Regular.obey {l : Ledger} (h : l.Regular) {c : Command} (hc : c.Regular) : (obey c l).2.Regular := by
  cases c with
  | call action caller name msg => exact call_regular h action caller name msg
  | query name msg => exact h.atHost _
  | watch o =>
    show (l.watch o).2.Regular
    rcases watch_cases l o with hl | hl <;> rw [hl]
    · exact h
    · exact h.joined hc
  | unwatch o =>
    show (l.unwatch o).2.Regular
    rcases unwatch_cases l o with hl | hl <;> rw [hl]
    · exact h
    · exact h.left o
  | plan o reactions => exact ⟨h.present, plan_all h.plans hc⟩
  | tick time => exact h.atHost _

end Ledger

end CounterLedger
