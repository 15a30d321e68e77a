/-
Sessions of calls that change who watches and of notifications, with observers that react. As long as
only observers that can be told of events and compared are named, the program takes every step, and
its run is one of nested notifications on an ordered set.
-/
import CounterLedger.Proofs.Watcher.Notification

namespace CounterLedger

namespace Watcher

variable {ε : Type}

mutual

/-- Whether a step names regular observers only, also in the plans that it gives. -/
def Step.regular : Step ε → Bool
  | .add o => o.regular
  | .remove o => o.regular
  | .len => true
  | .notify _ => true
  | .react _ steps => Step.allRegular steps

def Step.allRegular : List (Step ε) → Bool
  | [] => true
  | s :: rest => s.regular && Step.allRegular rest

end

def Task.regular : Task ε → Bool
  | .deliver _ o _ => o.regular
  | .step s => s.regular

/-- Only regular observers watch, and plans only name such. -/
structure Session.Regular (s : Session ε) : Prop where
  observers : ∀ o ∈ s.observers, o.regular
  plans : ∀ p ∈ s.plans, Step.allRegular p.2

variable {s : Session ε}

theorem Task.regular_ofSteps {steps : List (Step ε)} (h : Step.allRegular steps) :
    ∀ task ∈ Task.ofSteps steps, task.regular := by
  induction steps with
  | nil => simp [Task.ofSteps]
  | cons first rest ih =>
    rw [Step.allRegular, Bool.and_eq_true] at h
    exact List.forall_mem_cons.2 ⟨h.1, ih h.2⟩

theorem Task.regular_ofNotice {os : Watcher} (h : ∀ o ∈ os, o.regular) (call : Nat) (e : ε) :
    ∀ task ∈ Task.ofNotice call os e, task.regular := by
  intro task htask
  obtain ⟨o, ho, rfl⟩ := List.mem_map.1 htask
  exact h o ho

theorem Plans.regular_take {ps : Plans ε} (h : ∀ p ∈ ps, Step.allRegular p.2) (o : Observer) :
    Step.allRegular (ps.take o).1 ∧ ∀ p ∈ (ps.take o).2, Step.allRegular p.2 := by
  induction ps with
  | nil => exact ⟨rfl, h⟩
  | cons p rest ih =>
    obtain ⟨hp, hrest⟩ := List.forall_mem_cons.1 h
    obtain ⟨hplan, hothers⟩ := ih hrest
    rw [Plans.take]
    split
    · exact ⟨hp, hrest⟩
    · exact ⟨hplan, List.forall_mem_cons.2 ⟨hp, hothers⟩⟩

theorem Session.Regular.joined (hs : s.Regular) {o : Observer} (ho : o.regular) :
    Session.Regular { s with observers := s.observers.joined o } := by
  refine ⟨fun x hx => ?_, hs.plans⟩
  rcases mem_joined hx with hx | rfl
  · exact hs.observers x hx
  · exact ho

theorem Session.Regular.left (hs : s.Regular) (o : Observer) :
    Session.Regular { s with observers := s.observers.left o } :=
  ⟨fun x hx => hs.observers x (mem_of_mem_left hx), hs.plans⟩

/-- On regular observers the program does all tasks, in the order of nested notifications. -/
theorem runTasks_runs (s : Session ε) (acc : List (Record ε)) (tasks : List (Task ε)) (hs : s.Regular)
    (htasks : ∀ task ∈ tasks, task.regular) :
    ∃ rs t, runTasks s acc tasks = ⟨true, t, acc.reverse ++ rs⟩ ∧ Runs s tasks rs t ∧ t.Regular := by
  -- a plan and a notification put their tasks on top of the others, so the run that follows is split
  -- where these are done
  fun_induction runTasks s acc tasks with
  | case1 s acc => exact ⟨[], s, by simp, .done s, hs⟩
  | case2 s acc call e rest =>
    have ho : Observer.missing.regular := (List.forall_mem_cons.1 htasks).1
    cases ho
  | case3 s acc call o e rest ho taken ih =>
    obtain ⟨hplan, hplans⟩ := Plans.regular_take hs.plans o
    obtain ⟨rs, u, hrun, h, hu⟩ := ih ⟨hs.observers, hplans⟩
      (List.forall_mem_append.2 ⟨Task.regular_ofSteps hplan, (List.forall_mem_cons.1 htasks).2⟩)
    obtain ⟨rs₁, rs₂, t, rfl, h₁, h₂⟩ := h.split
    exact ⟨_, u, by rw [hrun]; simp, .deliver h₁ h₂, hu⟩
  | case4 s acc o rest hadd =>
    obtain ⟨ho, -⟩ := List.forall_mem_cons.1 htasks
    rw [add_eq_some (not_clashes_of_regular _ ho)] at hadd
    cases hadd
  | case5 s acc o rest w hadd ih =>
    obtain ⟨ho, hrest⟩ := List.forall_mem_cons.1 htasks
    rw [add_eq_some (not_clashes_of_regular _ ho)] at hadd
    cases hadd
    obtain ⟨rs, t, hrun, h, ht⟩ := ih (hs.joined ho) hrest
    exact ⟨rs, t, hrun, .add h, ht⟩
  | case6 s acc o rest hremove =>
    obtain ⟨ho, -⟩ := List.forall_mem_cons.1 htasks
    rw [remove_eq_some (not_clashes_of_regular _ ho)] at hremove
    cases hremove
  | case7 s acc o rest w hremove ih =>
    obtain ⟨ho, hrest⟩ := List.forall_mem_cons.1 htasks
    rw [remove_eq_some (not_clashes_of_regular _ ho)] at hremove
    cases hremove
    obtain ⟨rs, t, hrun, h, ht⟩ := ih (hs.left o) hrest
    exact ⟨rs, t, hrun, .remove h, ht⟩
  | case8 s acc rest ih =>
    obtain ⟨rs, t, hrun, h, ht⟩ := ih hs (List.forall_mem_cons.1 htasks).2
    exact ⟨_, t, by rw [hrun]; simp, .len h, ht⟩
  | case9 s acc e rest ih =>
    obtain ⟨rs, u, hrun, h, hu⟩ := ih ⟨hs.observers, hs.plans⟩
      (List.forall_mem_append.2 ⟨Task.regular_ofNotice hs.observers _ _, (List.forall_mem_cons.1 htasks).2⟩)
    obtain ⟨rs₁, rs₂, t, rfl, h₁, h₂⟩ := h.split
    exact ⟨_, u, by rw [hrun]; simp, .notify h₁ h₂, hu⟩
  | case10 s acc o steps rest ih =>
    obtain ⟨hplan, hrest⟩ := List.forall_mem_cons.1 htasks
    have hothers := (Plans.regular_take hs.plans o).2
    obtain ⟨rs, t, hrun, h, ht⟩ := ih ⟨hs.observers, List.forall_mem_cons.2 ⟨hplan, hothers⟩⟩ hrest
    exact ⟨rs, t, hrun, .react h, ht⟩

/-- Serves a step: how it ended, and the session after it. -/
def Step.serve (step : Step ε) (s : Session ε) : Ended ε × Session ε := (s.take step, (s.take step).session)

/-- What happened in a run of steps. -/
def recorded (ended : List (Ended ε)) : List (Record ε) := ended.flatMap Ended.records

/-- A run of regular steps takes them all. -/
theorem serve_runs {steps : List (Step ε)} (hs : s.Regular) (hsteps : ∀ step ∈ steps, step.regular) :
    (∀ ended ∈ (transcript Step.serve steps s).1, ended.finished = true) ∧
      Runs s (Task.ofSteps steps) (recorded (transcript Step.serve steps s).1) (transcript Step.serve steps s).2 := by
  induction steps generalizing s with
  | nil => exact ⟨by simp [transcript], .done s⟩
  | cons step rest ih =>
    obtain ⟨hstep, hrest⟩ := List.forall_mem_cons.1 hsteps
    obtain ⟨rs, t, hrun, h, ht⟩ := runTasks_runs s [] [.step step] hs (List.forall_mem_singleton.2 hstep)
    have hserve : step.serve s = (⟨true, t, rs⟩, t) := by rw [Step.serve, Session.take, hrun]; rfl
    obtain ⟨hfinished, hruns⟩ := ih ht hrest
    rw [transcript, hserve]
    exact ⟨List.forall_mem_cons.2 ⟨rfl, hfinished⟩, h.append hruns⟩

/-- In a run of regular steps from an empty list, every step is taken to its end, and the run is one
of nested notifications on an ordered set. No observer that is equal to itself is in the list twice, nor
in a snapshot. Every notification has a number of its own and is delivered to the observers of its
snapshot, once and in order, and nothing else is delivered. -/
theorem notifications_deliver_snapshots {steps : List (Step ε)} (hsteps : ∀ step ∈ steps, step.regular) :
    let run := transcript Step.serve steps ({} : Session ε)
    (∀ ended ∈ run.1, ended.finished = true) ∧
      Runs {} (Task.ofSteps steps) (recorded run.1) run.2 ∧
      run.2.observers.Distinct ∧
      ((notices (recorded run.1)).map Prod.fst).Nodup ∧
      (∀ n ∈ notices (recorded run.1),
        n.2.1.Distinct ∧ heard n.1 (recorded run.1) = n.2.1.map fun o => (o, n.2.2)) ∧
      ∀ call ∉ (notices (recorded run.1)).map Prod.fst, heard call (recorded run.1) = [] := by
  intro run
  have hempty : ({} : Session ε).Regular := ⟨by simp, by simp⟩
  obtain ⟨hfinished, h⟩ := serve_runs hempty hsteps
  obtain ⟨hdistinct, hsnapshots⟩ := h.distinct List.nodup_nil
  obtain ⟨n, -, hnumbers⟩ := h.numbered
  refine ⟨hfinished, h, hdistinct, ?_, fun n hn => ⟨hsnapshots n hn, ?_⟩, fun call hcall => h.heard_other hcall⟩
  · rw [hnumbers]
    exact List.nodup_range'
  · exact h.heard_notice (begun_ofSteps _ _) n hn

/-- A slice that watches. -/
def slice : Observer := .value (.closed [115] [99])

/-- A text that watches. -/
def text : Observer := .value (.plain [116] [100])

/-- Two objects and twice a slice watch; the first object takes the other one out, adds a text and
notifies again when it is told of the first event. -/
def rearranging : List (Step Nat) :=
  [.add (.handle [97]), .add (.handle [98]), .add slice, .add slice, .len,
    .react (.handle [97]) [.remove (.handle [98]), .add text, .notify 2], .notify 1]

theorem notices_rearranging :
    notices (recorded (transcript Step.serve rearranging {}).1) =
      [(0, [.handle [97], .handle [98], slice, slice], 1), (1, [.handle [97], slice, slice, text], 2)] := by
  simp [rearranging, slice, text, transcript, Step.serve, Session.take, runTasks, recorded, notices, add, remove,
    position?, Observer.handle, Observer.same?, Value.kind, Value.Kind.comparable, Value.equal?, Session.takePlan,
    Plans.take, Plans.put, Task.ofSteps, Task.ofNotice]

theorem notifications_deliver_snapshots_rearranging :
    let run := transcript Step.serve rearranging {}
    (∀ step ∈ rearranging, step.regular) ∧ (∀ ended ∈ run.1, ended.finished = true) ∧ run.2.observers.Distinct ∧
      heard 0 (recorded run.1) = [(.handle [97], 1), (.handle [98], 1), (slice, 1), (slice, 1)] ∧
      heard 1 (recorded run.1) = [(.handle [97], 2), (slice, 2), (slice, 2), (text, 2)] := by
  have hregular : ∀ step ∈ rearranging, step.regular = true := by decide
  obtain ⟨hfinished, -, hdistinct, -, hsnapshots, -⟩ := notifications_deliver_snapshots hregular
  rw [notices_rearranging, List.forall_mem_cons, List.forall_mem_singleton] at hsnapshots
  exact ⟨hregular, hfinished, hdistinct, hsnapshots.1.2, hsnapshots.2.2⟩

end Watcher

end CounterLedger
