/-
Notification with observers that react. A notification goes to the observers that watch when it
begins, in order. An observer may have a plan: steps that it takes once, at its next notification,
among them further notifications. A plan may hold the plan for the notification after that one, so
an observer may do something else each time. What is left to do is kept as a list of tasks, the
innermost notification first, and every task makes the plans or the tasks smaller.
-/
import CounterLedger.Watcher

namespace CounterLedger.Watcher

/-- A step on the list of observers. -/
inductive Step (ε : Type) where
  | add (o : Observer)
  | remove (o : Observer)
  /-- Asks how many observers watch. -/
  | len
  | notify (event : ε)
  /-- Gives an observer a plan, in place of the one it had. -/
  | react (o : Observer) (steps : List (Step ε))
deriving Inhabited

variable {ε : Type}

/-- Gives the object of that name a plan. -/
def Step.plan (id : Bytes) (steps : List (Step ε)) : Step ε := .react (.handle id) steps

mutual

/-- The number of steps in a step, those of plans included. -/
def Step.weight : Step ε → Nat
  | .react _ steps => 1 + Step.weights steps
  | .add _ => 1
  | .remove _ => 1
  | .len => 1
  | .notify _ => 1

/-- The number of steps in a list of steps. -/
def Step.weights : List (Step ε) → Nat
  | [] => 0
  | s :: rest => s.weight + Step.weights rest

end

/-- Something left to do. -/
inductive Task (ε : Type) where
  /-- Tells an observer of the event of a notification, which has a number. -/
  | deliver (call : Nat) (o : Observer) (event : ε)
  | step (s : Step ε)

/-- The tasks of a list of steps. -/
def Task.ofSteps (steps : List (Step ε)) : List (Task ε) := steps.map .step

/-- The deliveries of a notification. -/
def Task.ofNotice (call : Nat) (os : Watcher) (e : ε) : List (Task ε) :=
  os.map fun o => .deliver call o e

/-- The number of steps in a list of tasks. -/
def Task.weights : List (Task ε) → Nat
  | [] => 0
  | .deliver _ _ _ :: rest => Task.weights rest
  | .step s :: rest => s.weight + Task.weights rest

/-- The number of deliveries in a list of tasks. -/
def Task.deliveries : List (Task ε) → Nat
  | [] => 0
  | .deliver _ _ _ :: rest => Task.deliveries rest + 1
  | .step _ :: rest => Task.deliveries rest

/-- Plans by the observer that has them. -/
abbrev Plans (ε : Type) := List (Observer × List (Step ε))

namespace Plans

/-- The number of steps in all plans. -/
def weight : Plans ε → Nat
  | [] => 0
  | p :: rest => Step.weights p.2 + weight rest

/-- Takes the plan of an observer out; there are no steps when it has none. -/
def take (o : Observer) : Plans ε → List (Step ε) × Plans ε
  | [] => ([], [])
  | p :: rest =>
    if p.1 = o then (p.2, rest)
    else
      let (steps, others) := take o rest
      (steps, p :: others)

/-- Gives an observer a plan. -/
def put (o : Observer) (steps : List (Step ε)) (ps : Plans ε) : Plans ε := (o, steps) :: (ps.take o).2

end Plans

/-- A list of observers under way. -/
structure Session (ε : Type) where
  observers : Watcher := []
  plans : Plans ε := []
  /-- How many notifications have begun. -/
  calls : Nat := 0

/-- What happened during a session. -/
inductive Record (ε : Type) where
  /-- A notification began with these observers watching. -/
  | begun (call : Nat) (observers : Watcher) (event : ε)
  | delivered (call : Nat) (o : Observer) (event : ε)
  /-- So many observers were watching when it was asked. -/
  | counted (n : Nat)

/-- How a list of tasks ended: whether all were done, and what happened. -/
structure Ended (ε : Type) where
  finished : Bool
  session : Session ε
  records : List (Record ε)

/-! ## Sizes -/

theorem Task.weights_append (a b : List (Task ε)) :
    Task.weights (a ++ b) = Task.weights a + Task.weights b := by
  induction a with
  | nil => simp [Task.weights]
  | cons t rest ih => cases t <;> simp [Task.weights, ih, Nat.add_assoc]

theorem Task.weights_ofSteps (steps : List (Step ε)) :
    Task.weights (Task.ofSteps steps) = Step.weights steps := by
  induction steps with
  | nil => simp [ofSteps, Task.weights, Step.weights]
  | cons s rest ih => simpa [ofSteps, Task.weights, Step.weights] using ih

theorem Task.weights_ofNotice (call : Nat) (os : Watcher) (e : ε) :
    Task.weights (Task.ofNotice call os e) = 0 := by
  induction os with
  | nil => simp [ofNotice, Task.weights]
  | cons o rest ih => simpa [ofNotice, Task.weights] using ih

theorem Task.deliveries_append (a b : List (Task ε)) :
    Task.deliveries (a ++ b) = Task.deliveries a + Task.deliveries b := by
  induction a with
  | nil => simp [Task.deliveries]
  | cons t rest ih =>
    cases t <;> simp only [List.cons_append, Task.deliveries, ih]
    omega

theorem Task.deliveries_ofSteps (steps : List (Step ε)) :
    Task.deliveries (Task.ofSteps steps) = 0 := by
  induction steps with
  | nil => simp [ofSteps, Task.deliveries]
  | cons s rest ih => simpa [ofSteps, Task.deliveries] using ih

theorem Plans.weight_take (o : Observer) (ps : Plans ε) :
    Step.weights (ps.take o).1 + (ps.take o).2.weight = ps.weight := by
  induction ps with
  | nil => simp [Plans.take, Plans.weight, Step.weights]
  | cons p rest ih =>
    rw [Plans.take]
    split
    · simp [Plans.weight]
    · simp only [Plans.weight]; omega

theorem Plans.weight_put (o : Observer) (steps : List (Step ε)) (ps : Plans ε) :
    (ps.put o steps).weight ≤ Step.weights steps + ps.weight := by
  have h := weight_take o ps
  simp only [put, Plans.weight]
  omega

/-! ## Running -/

/-- The plan of an observer, and the session in which it has none. -/
def Session.takePlan (s : Session ε) (o : Observer) : List (Step ε) × Session ε :=
  ((s.plans.take o).1, { s with plans := (s.plans.take o).2 })

theorem Session.weight_takePlan (s : Session ε) (o : Observer) :
    Step.weights (s.takePlan o).1 + (s.takePlan o).2.plans.weight = s.plans.weight :=
  Plans.weight_take o s.plans

/-- Does the tasks in order. A step that is cut off, or an event for an observer that is missing,
ends everything. -/
def runTasks (s : Session ε) (records : List (Record ε)) (tasks : List (Task ε)) : Ended ε :=
  match tasks with
  | [] => ⟨true, s, records.reverse⟩
  | .deliver call o e :: rest =>
    if o = .missing then ⟨false, s, records.reverse⟩
    else
      let taken := s.takePlan o
      runTasks taken.2 (.delivered call o e :: records) (Task.ofSteps taken.1 ++ rest)
  | .step (.add o) :: rest =>
    match s.observers.add o with
    | none => ⟨false, s, records.reverse⟩
    | some w => runTasks { s with observers := w } records rest
  | .step (.remove o) :: rest =>
    match s.observers.remove o with
    | none => ⟨false, s, records.reverse⟩
    | some w => runTasks { s with observers := w } records rest
  | .step .len :: rest => runTasks s (.counted s.observers.length :: records) rest
  | .step (.notify e) :: rest =>
    runTasks { s with calls := s.calls + 1 } (.begun s.calls s.observers e :: records)
      (Task.ofNotice s.calls s.observers e ++ rest)
  | .step (.react o steps) :: rest => runTasks { s with plans := s.plans.put o steps } records rest
termination_by (Task.weights tasks + s.plans.weight, Task.deliveries tasks)
decreasing_by
  · have h := Session.weight_takePlan s o
    have hw : Task.weights (Task.ofSteps (s.takePlan o).1 ++ rest) + (s.takePlan o).2.plans.weight =
        Task.weights (.deliver call o e :: rest) + s.plans.weight := by
      rw [Task.weights_append, Task.weights_ofSteps]
      simp only [Task.weights]
      omega
    rw [hw]
    apply Prod.Lex.right
    rw [Task.deliveries_append, Task.deliveries_ofSteps]
    simp only [Task.deliveries]
    omega
  · apply Prod.Lex.left
    simp only [Task.weights, Step.weight]
    omega
  · apply Prod.Lex.left
    simp only [Task.weights, Step.weight]
    omega
  · apply Prod.Lex.left
    simp only [Task.weights, Step.weight]
    omega
  · apply Prod.Lex.left
    rw [Task.weights_append, Task.weights_ofNotice]
    simp only [Task.weights, Step.weight]
    omega
  · apply Prod.Lex.left
    have h := Plans.weight_put o steps s.plans
    simp only [Task.weights, Step.weight]
    omega

/-- Takes one step, with all that it sets off. -/
def Session.take (s : Session ε) (step : Step ε) : Ended ε := runTasks s [] [.step step]

/-- The deliveries among the records, in order. -/
def deliveries (records : List (Record ε)) : List (Observer × ε) :=
  records.filterMap fun
    | .delivered _ o e => some (o, e)
    | .begun _ _ _ => none
    | .counted _ => none

end CounterLedger.Watcher
