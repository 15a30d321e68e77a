/-
Runs of a watched host. Requests are served one after the other, and every committed call is
announced to the observers. Whatever observers do, an invariant of the host that calls and queries
keep is kept by a whole announcement; observers that leave the host alone, and that do not panic, change
neither the host nor the outcome of the call that they are told about.
-/
import CounterLedger.Host.Ledger
import CounterLedger.Proofs.Host.Storage
import CounterLedger.Proofs.Transcript
import CounterLedger.Proofs.Watcher.Members
import Mathlib.Logic.Relation

namespace CounterLedger

namespace Host

/-- A request to a host. -/
inductive Request where
  | call (action : Action) (caller : Address) (name : Bytes) (msg : Payload)
  | query (name : Bytes) (msg : Payload)
  | height
  | info (name : Bytes)

/-- The reply of a host to a request. -/
inductive Reply where
  | response (o : Outcome Response)
  | answer (o : Outcome Payload)
  | height (o : Outcome UInt64)
  | info (o : Outcome Version)

end Host

namespace Ledger

/-- Serves a request: the reply, and the ledger after all announcements. -/
def serve (r : Host.Request) (l : Ledger) : Host.Reply × Ledger :=
  match r with
  | .call action caller name msg =>
    (.response (l.call action caller name msg).outcome, (l.call action caller name msg).ledger)
  | .query name msg => (.answer (l.host.query name msg).outcome, { l with host := (l.host.query name msg).host })
  | .height => (.height l.host.height, l)
  | .info name => (.info (l.host.contractInfo name), l)

/-! ## Observers that do anything -/

/-- What queries and calls keep of a host is kept by all that observers do. -/
theorem runTasks_keeps {I : Host → Prop} (hq : ∀ h name msg, I h → I (h.query name msg).host)
    (hi : ∀ h action caller name msg, I h → I (h.invoke action caller name msg).host)
    (p : Progress) (tasks : List Task) (h : I p.ledger.host) : I (runTasks p tasks).2.ledger.host := by
  fun_induction runTasks p tasks with
  | case1 p => exact h
  | case2 p e rest => exact h
  | case3 p o e rest ho next ih => exact ih h
  | case4 p n r rest ih => exact ih h
  | case5 p n o rest hadd => exact h
  | case6 p n o rest w hadd ih => exact ih h
  | case7 p n o rest hremove => exact h
  | case8 p n o rest w hremove ih => exact ih h
  | case9 p n name msg rest r reason hr => exact hq _ _ _ h
  | case10 p n name msg rest r hr ih => exact ih (hq _ _ _ h)
  | case11 p n action caller name msg rest r reason hr => exact hi _ _ _ _ _ h
  | case12 p n action caller name msg rest r e hr ih => exact ih (hi _ _ _ _ _ h)
  | case13 p n action caller name msg rest r e hr announced ih => exact ih (hi _ _ _ _ _ h)

/-- What a call leaves of a host is kept by the announcement of the call. -/
theorem call_keeps {I : Host → Prop} (hq : ∀ h name msg, I h → I (h.query name msg).host)
    (hi : ∀ h action caller name msg, I h → I (h.invoke action caller name msg).host)
    {l : Ledger} {action : Action} {caller : Address} {name : Bytes} {msg : Payload}
    (h : I (l.host.invoke action caller name msg).host) : I (l.call action caller name msg).ledger.host := by
  simp only [call]
  split
  · exact h
  · exact h
  · exact runTasks_keeps hq hi _ _ h

theorem serve_keeps {I : Host → Prop} (hq : ∀ h name msg, I h → I (h.query name msg).host)
    (hi : ∀ h action caller name msg, I h → I (h.invoke action caller name msg).host)
    (r : Host.Request) (l : Ledger) (h : I l.host) : I (l.serve r).2.host := by
  cases r with
  | call action caller name msg => exact call_keeps hq hi (hi _ _ _ _ _ h)
  | query name msg => exact hq _ _ _ h
  | height => exact h
  | info name => exact h

/-- An observer comes, or the call is cut off and nothing happens. -/
theorem watch_cases (l : Ledger) (o : Observer) :
    (l.watch o).2 = l ∨ (l.watch o).2 = { l with watcher := l.watcher.joined o } := by
  unfold watch
  split
  · next w hadd =>
    rw [Watcher.eq_joined hadd]
    exact .inr rfl
  · exact .inl rfl

/-- An observer goes, or the call is cut off and nothing happens. -/
theorem unwatch_cases (l : Ledger) (o : Observer) :
    (l.unwatch o).2 = l ∨ (l.unwatch o).2 = { l with watcher := l.watcher.left o } := by
  unfold unwatch
  split
  · next w hremove =>
    rw [Watcher.eq_left hremove]
    exact .inr rfl
  · exact .inl rfl

/-- Who comes and goes leaves all but the list of observers. -/
theorem watch_eq (l : Ledger) (o : Observer) : (l.watch o).2 = { l with watcher := (l.watch o).2.watcher } := by
  rcases watch_cases l o with h | h <;> rw [h]

theorem unwatch_eq (l : Ledger) (o : Observer) : (l.unwatch o).2 = { l with watcher := (l.unwatch o).2.watcher } := by
  rcases unwatch_cases l o with h | h <;> rw [h]

/-- What may happen to a ledger: a request is served, or an observer comes, goes or plans. -/
inductive Step : Ledger → Ledger → Prop where
  | serve (r : Host.Request) (l : Ledger) : Step l (l.serve r).2
  | watch (o : Observer) (l : Ledger) : Step l (l.watch o).2
  | unwatch (o : Observer) (l : Ledger) : Step l (l.unwatch o).2
  | plan (o : Observer) (reactions : List Reaction) (l : Ledger) : Step l (l.plan o reactions)

/-- What queries and calls keep of a host is kept by any number of steps. -/
theorem steps_keep {I : Host → Prop} (hq : ∀ h name msg, I h → I (h.query name msg).host)
    (hi : ∀ h action caller name msg, I h → I (h.invoke action caller name msg).host)
    {l l' : Ledger} (hsteps : Relation.ReflTransGen Step l l') (h : I l.host) : I l'.host := by
  induction hsteps with
  | refl => exact h
  | tail _ step ih =>
    cases step with
    | serve r => exact serve_keeps hq hi r _ ih
    | watch o => rwa [watch_eq]
    | unwatch o => rwa [unwatch_eq]
    | plan o reactions => exact ih

/-- The contracts stay the same. -/
theorem serve_service (r : Host.Request) (l : Ledger) : (l.serve r).2.host.service = l.host.service := by
  refine serve_keeps (I := fun h => h.service = l.host.service) ?_ ?_ r l rfl
  · intro h name msg hs
    obtain ⟨metrics, hx⟩ := h.query_host name msg
    rw [hx]
    exact hs
  · intro h action caller name msg hs
    rw [h.invoke_service]
    exact hs

/-! ## Observers that do not panic -/

/-- The reaction is no watching or unwatching of an observer whose comparison could be cut off. -/
def Reaction.Regular : Reaction → Prop
  | .watch o => o.regular
  | .unwatch o => o.regular
  | .query _ _ => True
  | .call _ _ _ _ => True

/-- No observer panics by itself: none of those that watch is missing, and the reactions that are
planned are regular. -/
structure Regular (l : Ledger) : Prop where
  present : .missing ∉ l.watcher
  plans : ∀ p ∈ l.plans, ∀ r ∈ p.2, r.Regular

/-- A task is for no missing observer, and if it is a reaction it is regular. -/
def Task.Regular : Task → Prop
  | .notify o _ => o ≠ .missing
  | .react _ r => r.Regular
  | .settle _ _ => True

/-- Taking a plan out makes no new plans. -/
theorem Plans.mem_of_take (ps : Plans) (o : Observer) :
    (∀ r ∈ (ps.take o).1, ∃ p ∈ ps, p.1 = o ∧ r ∈ p.2) ∧ ∀ p ∈ (ps.take o).2, p ∈ ps := by
  induction ps with
  | nil => exact ⟨by simp [Plans.take], by simp [Plans.take]⟩
  | cons q rest ih =>
    obtain ⟨htaken, hothers⟩ := ih
    simp only [Plans.take]
    split
    · rename_i ho
      exact ⟨fun r hr => ⟨q, List.mem_cons_self, ho, hr⟩, fun p hp => List.mem_cons_of_mem _ hp⟩
    · refine ⟨fun r hr => ?_, fun p hp => ?_⟩
      · obtain ⟨p, hp, hpo, hrp⟩ := htaken r hr
        exact ⟨p, List.mem_cons_of_mem _ hp, hpo, hrp⟩
      · rcases List.mem_cons.1 hp with rfl | hp
        · exact List.mem_cons_self
        · exact List.mem_cons_of_mem _ (hothers p hp)

/-- What all planned reactions have in common, those that are taken and those that stay have. -/
theorem Plans.take_all {P : Reaction → Prop} {ps : Plans} (h : ∀ p ∈ ps, ∀ r ∈ p.2, P r) (o : Observer) :
    (∀ r ∈ (ps.take o).1, P r) ∧ ∀ p ∈ (ps.take o).2, ∀ r ∈ p.2, P r := by
  obtain ⟨htaken, hothers⟩ := Plans.mem_of_take ps o
  refine ⟨fun r hr => ?_, fun p hp => h p (hothers p hp)⟩
  obtain ⟨p, hp, -, hrp⟩ := htaken r hr
  exact h p hp r hrp

theorem Task.forall_ofEvent {P : Task → Prop} {w : Watcher} {e : Event} (h : ∀ o ∈ w, P (.notify o e)) :
    ∀ t ∈ Task.ofEvent w e, P t := List.forall_mem_map.2 h

theorem Task.forall_ofReactions {P : Task → Prop} {rs : List Reaction} {n : Nat} (h : ∀ r ∈ rs, P (.react n r)) :
    ∀ t ∈ Task.ofReactions n rs, P t := List.forall_mem_map.2 h

theorem Task.regular_ofEvent {w : Watcher} (h : .missing ∉ w) (e : Event) : ∀ t ∈ Task.ofEvent w e, t.Regular :=
  Task.forall_ofEvent fun _ ho he => h (he ▸ ho)

theorem Regular.atHost {l : Ledger} (h : l.Regular) (host : Host) : Regular { l with host } := ⟨h.present, h.plans⟩

theorem Regular.joined {l : Ledger} (h : l.Regular) {o : Observer} (ho : o.regular) :
    Regular { l with watcher := l.watcher.joined o } := by
  refine ⟨fun hm => ?_, h.plans⟩
  rcases Watcher.mem_joined hm with hm | rfl
  · exact h.present hm
  · cases ho

theorem Regular.left {l : Ledger} (h : l.Regular) (o : Observer) :
    Regular { l with watcher := l.watcher.left o } :=
  ⟨fun hm => h.present (Watcher.mem_of_mem_left hm), h.plans⟩

/-- Regular tasks leave the ledger regular. -/
theorem runTasks_regular (p : Progress) (tasks : List Task) (hp : p.ledger.Regular) (ht : ∀ t ∈ tasks, t.Regular) :
    (runTasks p tasks).2.ledger.Regular := by
  fun_induction runTasks p tasks with
  | case1 p => exact hp
  | case2 p e rest => exact hp
  | case3 p o e rest ho next ih =>
    obtain ⟨hreactions, hothers⟩ := Plans.take_all hp.plans o
    exact ih ⟨hp.present, hothers⟩ (List.forall_mem_append.2
      ⟨Task.forall_ofReactions hreactions, (List.forall_mem_cons.1 ht).2⟩)
  | case4 p n r rest ih => exact ih hp (List.forall_mem_cons.1 ht).2
  | case5 p n o rest hadd => exact hp
  | case6 p n o rest w hadd ih =>
    obtain ⟨ho, hrest⟩ := List.forall_mem_cons.1 ht
    obtain rfl := Watcher.eq_joined hadd
    exact ih (hp.joined ho) hrest
  | case7 p n o rest hremove => exact hp
  | case8 p n o rest w hremove ih =>
    obtain rfl := Watcher.eq_left hremove
    exact ih (hp.left o) (List.forall_mem_cons.1 ht).2
  | case9 p n name msg rest r reason hr => exact hp.atHost _
  | case10 p n name msg rest r hr ih => exact ih (hp.atHost _) (List.forall_mem_cons.1 ht).2
  | case11 p n action caller name msg rest r reason hr => exact hp.atHost _
  | case12 p n action caller name msg rest r e hr ih =>
    exact ih (hp.atHost _) (List.forall_mem_cons.1 ht).2
  | case13 p n action caller name msg rest r e hr announced ih =>
    refine ih (hp.atHost _) (List.forall_mem_append.2 ⟨Task.regular_ofEvent hp.present e, ?_⟩)
    exact List.forall_mem_cons.2 ⟨trivial, (List.forall_mem_cons.1 ht).2⟩

theorem call_regular {l : Ledger} (h : l.Regular) (action : Action) (caller : Address) (name : Bytes)
    (msg : Payload) : (l.call action caller name msg).ledger.Regular := by
  simp only [call]
  split
  · exact h.atHost _
  · exact h.atHost _
  · exact runTasks_regular _ _ (h.atHost _) (Task.regular_ofEvent h.present _)

/-! ## Observers that leave the host alone -/

/-- Only other observers are touched by the reaction. -/
def Reaction.Quiet : Reaction → Prop
  | .watch _ => True
  | .unwatch _ => True
  | .query _ _ => False
  | .call _ _ _ _ => False

/-- No observer has planned anything that touches the host. -/
def Plans.Quiet (ps : Plans) : Prop := ∀ p ∈ ps, ∀ r ∈ p.2, r.Quiet

/-- A task that is a reaction touches only observers. -/
def Task.Quiet : Task → Prop
  | .react _ r => r.Quiet
  | .notify _ _ => True
  | .settle _ _ => True

/-- No observer panics, and none has planned anything that touches the host. -/
structure Quiet (l : Ledger) : Prop where
  regular : l.Regular
  plans : l.plans.Quiet

theorem Quiet.atHost {l : Ledger} (h : l.Quiet) (host : Host) : Quiet { l with host } :=
  ⟨h.regular.atHost host, h.plans⟩

theorem Plans.Quiet.take {ps : Plans} (h : ps.Quiet) (o : Observer) :
    (∀ r ∈ (ps.take o).1, r.Quiet) ∧ Plans.Quiet (ps.take o).2 := Plans.take_all h o

/-- Quiet tasks are all done, and leave the host as it is. -/
theorem runTasks_quiet (p : Progress) (tasks : List Task) (hp : p.ledger.plans.Quiet) (ht : ∀ t ∈ tasks, t.Quiet)
    (hregular : p.ledger.Regular) (htasks : ∀ t ∈ tasks, t.Regular) :
    (runTasks p tasks).1 = .ok () ∧ (runTasks p tasks).2.ledger.host = p.ledger.host ∧
      (runTasks p tasks).2.ledger.plans.Quiet := by
  fun_induction runTasks p tasks with
  | case1 p => exact ⟨rfl, rfl, hp⟩
  | case2 p e rest => exact absurd rfl (List.forall_mem_cons.1 htasks).1
  | case3 p o e rest ho next ih =>
    obtain ⟨hreactions, hothers⟩ := hp.take o
    obtain ⟨hregulars, hplans⟩ := Plans.take_all hregular.plans o
    exact ih hothers
      (List.forall_mem_append.2 ⟨Task.forall_ofReactions hreactions, (List.forall_mem_cons.1 ht).2⟩)
      ⟨hregular.present, hplans⟩
      (List.forall_mem_append.2 ⟨Task.forall_ofReactions hregulars, (List.forall_mem_cons.1 htasks).2⟩)
  | case4 p n r rest ih => exact ih hp (List.forall_mem_cons.1 ht).2 hregular (List.forall_mem_cons.1 htasks).2
  | case5 p n o rest hadd =>
    obtain ⟨ho, -⟩ := List.forall_mem_cons.1 htasks
    exact absurd (Watcher.add_eq_none_iff.1 hadd) (Watcher.not_clashes_of_regular _ ho)
  | case6 p n o rest w hadd ih =>
    obtain ⟨ho, hrest⟩ := List.forall_mem_cons.1 htasks
    obtain rfl := Watcher.eq_joined hadd
    exact ih hp (List.forall_mem_cons.1 ht).2 (hregular.joined ho) hrest
  | case7 p n o rest hremove =>
    obtain ⟨ho, -⟩ := List.forall_mem_cons.1 htasks
    exact absurd (Watcher.remove_eq_none_iff.1 hremove) (Watcher.not_clashes_of_regular _ ho)
  | case8 p n o rest w hremove ih =>
    obtain rfl := Watcher.eq_left hremove
    exact ih hp (List.forall_mem_cons.1 ht).2 (hregular.left o) (List.forall_mem_cons.1 htasks).2
  -- queries and calls are no quiet tasks
  | case9 | case10 | case11 | case12 | case13 => exact (ht _ List.mem_cons_self).elim

/-- A call that quiet observers are told about is a call of the host. -/
theorem call_quiet {l : Ledger} (h : l.Quiet) (action : Action) (caller : Address) (name : Bytes) (msg : Payload) :
    (l.call action caller name msg).outcome = (l.host.invoke action caller name msg).outcome.map Event.response ∧
      (l.call action caller name msg).ledger.host = (l.host.invoke action caller name msg).host ∧
      (l.call action caller name msg).ledger.Quiet := by
  have hregular := call_regular h.regular action caller name msg
  simp only [call] at hregular ⊢
  cases hr : (l.host.invoke action caller name msg).outcome with
  | error e => exact ⟨rfl, rfl, h.atHost _⟩
  | abort a => exact ⟨rfl, rfl, h.atHost _⟩
  | ok e =>
    simp only [hr] at hregular
    obtain ⟨hdone, hhost, hplans⟩ := runTasks_quiet
      { ledger := { l with host := (l.host.invoke action caller name msg).host } }
      (Task.ofEvent l.watcher e) h.plans (Task.forall_ofEvent fun _ _ => trivial) (h.regular.atHost _)
      (Task.regular_ofEvent h.regular.present e)
    simp only [hdone]
    exact ⟨rfl, hhost, hregular, hplans⟩

theorem serve_quiet {l : Ledger} (h : l.Quiet) (r : Host.Request) : (l.serve r).2.Quiet := by
  cases r with
  | call action caller name msg => exact (call_quiet h action caller name msg).2.2
  | query name msg => exact h.atHost _
  | height => exact h
  | info name => exact h

end Ledger

end CounterLedger
