/-
A host with observers. Every committed call is announced to the observers that watch at that time,
in order. An observer may have a plan of reactions for its next event, among them calls to the host
that are announced in turn, before the announcement that set them off goes on. A reaction that
aborts, or an observer that is missing, takes with it everything that waits, but undoes nothing that
has been committed.
-/
import CounterLedger.Host.Basic
import CounterLedger.Watcher

namespace CounterLedger

namespace Ledger

/-- Something an observer does when it is notified. -/
inductive Reaction where
  | watch (o : Observer)
  | unwatch (o : Observer)
  | query (contract : Bytes) (msg : Payload)
  | call (action : Action) (caller : Address) (contract : Bytes) (msg : Payload)

/-- What came out of a reaction. -/
inductive Reacted where
  | nothing
  | answer (outcome : Outcome Payload)
  | response (outcome : Outcome Response)

/-- What happens during a call, in order. Notifications are counted from zero, and the result of a
reaction names the notification that set it off. -/
inductive Record where
  | notified (o : Observer) (event : Event)
  | reacted (notice : Nat) (r : Reacted)

/-- Something left to do. -/
inductive Task where
  | notify (o : Observer) (event : Event)
  | react (notice : Nat) (r : Reaction)
  /-- Records the result of a reaction, once all that it set off is done. -/
  | settle (notice : Nat) (r : Reacted)

/-- The reactions that observers have planned for their next event. -/
abbrev Plans := List (Observer × List Reaction)

/-- The number of reactions in all plans. -/
def Plans.weight : Plans → Nat
  | [] => 0
  | p :: rest => p.2.length + Plans.weight rest

/-- Takes the plan of an observer out; there are no reactions when it has none. -/
def Plans.take (o : Observer) : Plans → List Reaction × Plans
  | [] => ([], [])
  | p :: rest =>
    if p.1 = o then (p.2, rest)
    else
      let (reactions, others) := Plans.take o rest
      (reactions, p :: others)

/-- The number of reactions in a list of tasks. -/
def Task.reactions : List Task → Nat
  | [] => 0
  | .react _ _ :: rest => Task.reactions rest + 1
  | _ :: rest => Task.reactions rest

/-- The number of tasks in a list that are no reactions. -/
def Task.notices : List Task → Nat
  | [] => 0
  | .react _ _ :: rest => Task.notices rest
  | _ :: rest => Task.notices rest + 1

/-- The tasks of the reactions to a notification. -/
def Task.ofReactions (notice : Nat) (rs : List Reaction) : List Task := rs.map (.react notice)

/-- The notifications of an event to the observers that watch. -/
def Task.ofEvent (w : Watcher) (e : Event) : List Task := w.map fun o => .notify o e

end Ledger

/-- A host, the observers that watch it, and their plans. -/
structure Ledger where
  host : Host
  watcher : Watcher := []
  plans : Ledger.Plans := []

namespace Ledger

/-! ## Sizes -/

theorem Plans.weight_take (o : Observer) (ps : Plans) :
    (ps.take o).1.length + Plans.weight (ps.take o).2 = Plans.weight ps := by
  induction ps with
  | nil => simp [Plans.take, Plans.weight]
  | cons p rest ih =>
    rw [Plans.take]
    split
    · simp [Plans.weight]
    · simp only [Plans.weight]; omega

theorem Task.reactions_append (a b : List Task) :
    Task.reactions (a ++ b) = Task.reactions a + Task.reactions b := by
  induction a with
  | nil => simp [Task.reactions]
  | cons t rest ih =>
    cases t <;> simp only [List.cons_append, Task.reactions, ih]
    omega

theorem Task.notices_append (a b : List Task) :
    Task.notices (a ++ b) = Task.notices a + Task.notices b := by
  induction a with
  | nil => simp [Task.notices]
  | cons t rest ih =>
    cases t <;> simp only [List.cons_append, Task.notices, ih]
    all_goals omega

theorem Task.reactions_ofReactions (notice : Nat) (rs : List Reaction) :
    Task.reactions (Task.ofReactions notice rs) = rs.length := by
  induction rs with
  | nil => simp [ofReactions, Task.reactions]
  | cons r rest ih => simpa [ofReactions, Task.reactions] using ih

theorem Task.notices_ofReactions (notice : Nat) (rs : List Reaction) :
    Task.notices (Task.ofReactions notice rs) = 0 := by
  induction rs with
  | nil => simp [ofReactions, Task.notices]
  | cons r rest ih => simpa [ofReactions, Task.notices] using ih

theorem Task.reactions_ofEvent (w : Watcher) (e : Event) :
    Task.reactions (Task.ofEvent w e) = 0 := by
  induction w with
  | nil => simp [ofEvent, Task.reactions]
  | cons o rest ih => simpa [ofEvent, Task.reactions] using ih

/-! ## Running -/

/-- Adds an observer to those that watch, unless it is among them; the call is aborted when a
comparison is cut off. -/
def watch (l : Ledger) (o : Observer) : Outcome Unit × Ledger :=
  match l.watcher.add o with
  | some w => (.ok (), { l with watcher := w })
  | none => (.abort none, l)

/-- Takes an observer out of those that watch; the call is aborted when a comparison is cut off. -/
def unwatch (l : Ledger) (o : Observer) : Outcome Unit × Ledger :=
  match l.watcher.remove o with
  | some w => (.ok (), { l with watcher := w })
  | none => (.abort none, l)

/-- Sets what an observer does at its next event. -/
def plan (l : Ledger) (o : Observer) (reactions : List Reaction) : Ledger :=
  { l with plans := (o, reactions) :: (l.plans.take o).2 }

/-- What has happened while tasks are done: the ledger, the number of notifications, and the
records and the log in reverse. -/
structure Progress where
  ledger : Ledger
  notices : Nat := 0
  records : List Record := []
  logs : List Log.Entry := []

/-- Adds a record. -/
def Progress.note (p : Progress) (r : Record) : Progress := { p with records := r :: p.records }

/-- Adds what a call leaves. -/
def Progress.after {α : Type} (p : Progress) (c : Host.Called α) : Progress :=
  { p with ledger := { p.ledger with host := c.host }, logs := c.logs.reverse ++ p.logs }

/-- Hands an event to an observer; the reactions that it has planned for it are to be done next. -/
def Progress.notify (p : Progress) (o : Observer) (e : Event) : Progress × List Reaction :=
  let taken := p.ledger.plans.take o
  ({ p.note (.notified o e) with
      ledger := { p.ledger with plans := taken.2 }, notices := p.notices + 1 }, taken.1)

/-- Does the tasks in order. An abort leaves the tasks after it undone; an event for an observer that
is missing is one. -/
def runTasks (p : Progress) (tasks : List Task) : Outcome Unit × Progress :=
  match tasks with
  | [] => (.ok (), p)
  | .notify o e :: rest =>
    if o = .missing then (.abort none, p)
    else
      let next := p.notify o e
      runTasks next.1 (Task.ofReactions p.notices next.2 ++ rest)
  | .settle n r :: rest => runTasks (p.note (.reacted n r)) rest
  | .react n (.watch o) :: rest =>
    match p.ledger.watcher.add o with
    | none => (.abort none, p)
    | some w => runTasks ({ p with ledger := { p.ledger with watcher := w } }.note (.reacted n .nothing)) rest
  | .react n (.unwatch o) :: rest =>
    match p.ledger.watcher.remove o with
    | none => (.abort none, p)
    | some w => runTasks ({ p with ledger := { p.ledger with watcher := w } }.note (.reacted n .nothing)) rest
  | .react n (.query name msg) :: rest =>
    let r := p.ledger.host.query name msg
    match r.outcome with
    | .abort reason => (.abort reason, p.after r)
    | outcome => runTasks ((p.after r).note (.reacted n (.answer outcome))) rest
  | .react n (.call action caller name msg) :: rest =>
    let r := p.ledger.host.invoke action caller name msg
    match r.outcome with
    | .abort reason => (.abort reason, p.after r)
    | .error e => runTasks ((p.after r).note (.reacted n (.response (.error e)))) rest
    | .ok e =>
      let announced := Task.ofEvent p.ledger.watcher e
      runTasks (p.after r) (announced ++ .settle n (.response (.ok e.response)) :: rest)
termination_by (Task.reactions tasks + Plans.weight p.ledger.plans, Task.notices tasks)
decreasing_by
  · have h := Plans.weight_take o p.ledger.plans
    have hw : Task.reactions (Task.ofReactions p.notices next.2 ++ rest) +
        Plans.weight next.1.ledger.plans =
        Task.reactions (.notify o e :: rest) + Plans.weight p.ledger.plans := by
      rw [Task.reactions_append, Task.reactions_ofReactions]
      simp only [next, Progress.notify, Task.reactions]
      omega
    rw [hw]
    apply Prod.Lex.right
    rw [Task.notices_append, Task.notices_ofReactions]
    simp only [Task.notices]
    omega
  · simp only [Task.reactions, Task.notices, Progress.note]
    apply Prod.Lex.right
    omega
  · apply Prod.Lex.left
    simp only [Task.reactions, Progress.note]
    omega
  · apply Prod.Lex.left
    simp only [Task.reactions, Progress.note]
    omega
  · apply Prod.Lex.left
    simp only [Task.reactions, Progress.note, Progress.after]
    omega
  · apply Prod.Lex.left
    simp only [Task.reactions, Progress.note, Progress.after]
    omega
  · apply Prod.Lex.left
    rw [Task.reactions_append, Task.reactions_ofEvent]
    simp only [Task.reactions, Progress.after]
    omega

/-- What a state-changing call leaves. -/
structure Called where
  outcome : Outcome Response
  ledger : Ledger
  records : List Record := []
  logs : List Log.Entry := []

/-- Runs a state-changing call and announces it when it is committed. An abort in a reaction is the
outcome of the call, which stays committed. -/
def call (l : Ledger) (action : Action) (caller : Address) (name : Bytes) (msg : Payload) : Called :=
  let r := l.host.invoke action caller name msg
  let l₁ := { l with host := r.host }
  match r.outcome with
  | .error e => { outcome := .error e, ledger := l₁, logs := r.logs }
  | .abort a => { outcome := .abort a, ledger := l₁, logs := r.logs }
  | .ok e =>
    let (done, p) := runTasks { ledger := l₁ } (Task.ofEvent l.watcher e)
    { outcome := done.map fun _ => e.response
      ledger := p.ledger
      records := p.records.reverse
      logs := r.logs ++ p.logs.reverse }

/-- What came out of the reactions to a notification, in order. -/
def reactionsTo (records : List Record) (notice : Nat) : List Reacted :=
  records.filterMap fun
    | .reacted n r => if n = notice then some r else none
    | .notified _ _ => none

/-- The notifications in order, each with what came out of the reactions to it. -/
def notifications (records : List Record) : List (Observer × Event × List Reacted) :=
  let notices := records.filterMap fun
    | .notified o e => some (o, e)
    | .reacted _ _ => none
  notices.zipIdx.map fun ((o, e), n) => (o, e, reactionsTo records n)

/-- Closes the database and opens it again under a new host, which nobody watches. -/
def reopen (l : Ledger) : Ledger :=
  { l with host := { l.host with database := { l.host.database with isOpen := true } }, watcher := [] }

end Ledger

end CounterLedger
