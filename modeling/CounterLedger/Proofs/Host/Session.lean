/-
Sessions with a watched host. Calls and queries are served one after the other, observers of any kind
come and go in between and set what they do at their next event, and time passes. During an
announcement the host only changes by the calls and queries that observers make.
-/
import CounterLedger.Proofs.Host.Count
import CounterLedger.Proofs.Host.Run

namespace CounterLedger

namespace Ledger

/-! ## The list of observers -/

/-- An observer that is equal to itself watches at most once, whoever comes or goes. -/
theorem watch_distinct {l : Ledger} (h : l.watcher.Distinct) (o : Observer) : (l.watch o).2.watcher.Distinct := by
  rcases watch_cases l o with hl | hl <;> rw [hl]
  · exact h
  · exact h.joined o

theorem unwatch_distinct {l : Ledger} (h : l.watcher.Distinct) (o : Observer) :
    (l.unwatch o).2.watcher.Distinct := by
  rcases unwatch_cases l o with hl | hl <;> rw [hl]
  · exact h
  · exact h.left o

/-! ## Records -/

/-- The notification that a record is, if it is one. -/
def Record.notice : Record → Option (Observer × Event)
  | .notified o e => some (o, e)
  | .reacted _ _ => none

/-- The notifications among records. -/
def notices (records : List Record) : List (Observer × Event) := records.filterMap Record.notice

/-! ## Reactions that leave the host alone -/

/-- The reaction is no state-changing call. -/
def Reaction.Passive : Reaction → Prop
  | .call _ _ _ _ => False
  | _ => True

/-- The task is no state-changing call. -/
def Task.Passive : Task → Prop
  | .react _ r => r.Passive
  | .notify _ _ => True
  | .settle _ _ => True

/-! ## Calls -/

theorem call_of_ok {l : Ledger} {action : Action} {caller : Address} {name : Bytes} {msg : Payload} {e : Event}
    (h : (l.host.invoke action caller name msg).outcome = .ok e) :
    let r := runTasks { ledger := { l with host := (l.host.invoke action caller name msg).host } }
      (Task.ofEvent l.watcher e)
    (l.call action caller name msg).outcome = r.1.map (fun _ => e.response) ∧
      (l.call action caller name msg).ledger = r.2.ledger ∧
      (l.call action caller name msg).records = r.2.records.reverse := by
  simp [call, h]

/-- A committed call that comes back with a response has done all that its announcement set off. -/
theorem call_done {l : Ledger} {action : Action} {caller : Address} {name : Bytes} {msg : Payload} {e : Event}
    (h : (l.host.invoke action caller name msg).outcome = .ok e)
    (hback : ∃ res, (l.call action caller name msg).outcome = .ok res) :
    (runTasks { ledger := { l with host := (l.host.invoke action caller name msg).host } }
      (Task.ofEvent l.watcher e)).1 = .ok () := by
  obtain ⟨hout, -, -⟩ := call_of_ok h
  obtain ⟨res, hres⟩ := hback
  rw [hout] at hres
  generalize (runTasks _ _).1 = done at hres ⊢
  cases done with
  | ok => rfl
  | error reason => cases hres
  | abort reason => cases hres

/-- A call that the host does not commit is announced to nobody. -/
theorem call_of_not_ok {l : Ledger} {action : Action} {caller : Address} {name : Bytes} {msg : Payload}
    (h : ∀ e, (l.host.invoke action caller name msg).outcome ≠ .ok e) :
    (l.call action caller name msg).outcome = (l.host.invoke action caller name msg).outcome.map Event.response ∧
      (l.call action caller name msg).ledger = { l with host := (l.host.invoke action caller name msg).host } ∧
      (l.call action caller name msg).records = [] := by
  simp only [call]
  cases hr : (l.host.invoke action caller name msg).outcome with
  | ok e => exact absurd hr (h e)
  | error e => exact ⟨rfl, rfl, rfl⟩
  | abort reason => exact ⟨rfl, rfl, rfl⟩

/-! ## Commands -/

/-- What a watched host is told from outside. -/
inductive Command where
  | call (action : Action) (caller : Address) (name : Bytes) (msg : Payload)
  | query (name : Bytes) (msg : Payload)
  | watch (o : Observer)
  | unwatch (o : Observer)
  /-- Sets what an observer does at its next event. -/
  | plan (o : Observer) (reactions : List Reaction)
  /-- The clock shows another time. -/
  | tick (time : Int)

/-- What is seen of a command: the outcome of a call or a query, whether it was cut off to add or take
out an observer, and what happened during a call. -/
structure Sight where
  response : Option (Outcome Response) := none
  answer : Option (Outcome Payload) := none
  registered : Option (Outcome Unit) := none
  records : List Record := []

/-- Carries out a command. -/
def obey (c : Command) (l : Ledger) : Sight × Ledger :=
  match c with
  | .call action caller name msg =>
    let x := l.call action caller name msg
    ({ response := some x.outcome, records := x.records }, x.ledger)
  | .query name msg =>
    let x := l.host.query name msg
    ({ answer := some x.outcome }, { l with host := x.host })
  | .watch o =>
    let x := l.watch o
    ({ registered := some x.1 }, x.2)
  | .unwatch o =>
    let x := l.unwatch o
    ({ registered := some x.1 }, x.2)
  | .plan o reactions => ({}, l.plan o reactions)
  | .tick time => ({}, { l with host := { l.host with clock := time } })

/-- Whether the command was a call that returned a response. -/
def Sight.committed (s : Sight) : Bool :=
  match s.response with
  | some (.ok _) => true
  | _ => false

theorem committed_call {l : Ledger} {action : Action} {caller : Address} {name : Bytes} {msg : Payload} {res : Response}
    (h : (l.call action caller name msg).outcome = .ok res) :
    (obey (.call action caller name msg) l).1.committed = true := by
  simp only [obey, Sight.committed, h]

end Ledger

end CounterLedger
