/-
Notification of observers that change the list and notify again. Runs nest: a notification tells the
observers of its snapshot one after the other, and whatever one of them does is done before the next
one is told. In such a run each notification reaches the observers of its snapshot once and in order,
and the list is an ordered set throughout.

Notifications are numbered as they begin. A run only adds deliveries of its own numbers and of those
that it was left to make, so the deliveries of nested notifications never mix with the outer ones.
-/
import CounterLedger.Proofs.Watcher.Members
import CounterLedger.Watcher.Session

namespace CounterLedger

namespace Watcher

variable {ε : Type}

/-! ## Runs of nested notifications -/

/-- From a session, the tasks are done with these records and leave that session. The observers of a
notification act within it, on a list that is an ordered set. -/
inductive Runs : Session ε → List (Task ε) → List (Record ε) → Session ε → Prop where
  | done (s : Session ε) : Runs s [] [] s
  | deliver {s t u : Session ε} {call : Nat} {o : Observer} {e : ε} {rest : List (Task ε)} {rs rs' : List (Record ε)} :
      Runs (s.takePlan o).2 (Task.ofSteps (s.takePlan o).1) rs t → Runs t rest rs' u →
      Runs s (.deliver call o e :: rest) (.delivered call o e :: (rs ++ rs')) u
  | add {s t : Session ε} {o : Observer} {rest : List (Task ε)} {rs : List (Record ε)} :
      Runs { s with observers := s.observers.joined o } rest rs t → Runs s (.step (.add o) :: rest) rs t
  | remove {s t : Session ε} {o : Observer} {rest : List (Task ε)} {rs : List (Record ε)} :
      Runs { s with observers := s.observers.left o } rest rs t → Runs s (.step (.remove o) :: rest) rs t
  | len {s t : Session ε} {rest : List (Task ε)} {rs : List (Record ε)} :
      Runs s rest rs t → Runs s (.step .len :: rest) (.counted s.observers.length :: rs) t
  | notify {s t u : Session ε} {e : ε} {rest : List (Task ε)} {rs rs' : List (Record ε)} :
      Runs { s with calls := s.calls + 1 } (Task.ofNotice s.calls s.observers e) rs t → Runs t rest rs' u →
      Runs s (.step (.notify e) :: rest) (.begun s.calls s.observers e :: (rs ++ rs')) u
  | react {s t : Session ε} {o : Observer} {steps : List (Step ε)} {rest : List (Task ε)} {rs : List (Record ε)} :
      Runs { s with plans := s.plans.put o steps } rest rs t → Runs s (.step (.react o steps) :: rest) rs t

variable {s t u : Session ε} {as bs tasks : List (Task ε)} {rs rs' : List (Record ε)}

theorem Runs.append (h : Runs s as rs t) (h' : Runs t bs rs' u) : Runs s (as ++ bs) (rs ++ rs') u := by
  induction h with
  | done => exact h'
  | deliver hplan _ _ ih =>
    rw [List.cons_append, List.cons_append, List.append_assoc]
    exact .deliver hplan (ih h')
  | add _ ih => exact .add (ih h')
  | remove _ ih => exact .remove (ih h')
  | len _ ih => exact .len (ih h')
  | notify hsnapshot _ _ ih =>
    rw [List.cons_append, List.cons_append, List.append_assoc]
    exact .notify hsnapshot (ih h')
  | react _ ih => exact .react (ih h')

/-- A run of tasks and then others passes through a session in between. -/
theorem Runs.split (h : Runs s (as ++ bs) rs u) :
    ∃ rs₁ rs₂ t, rs = rs₁ ++ rs₂ ∧ Runs s as rs₁ t ∧ Runs t bs rs₂ u := by
  induction as generalizing s rs with
  | nil => exact ⟨[], rs, s, rfl, .done s, h⟩
  | cons a rest ih =>
    cases h with
    | deliver hplan hrest =>
      obtain ⟨rs₁, rs₂, t, rfl, h₁, h₂⟩ := ih hrest
      exact ⟨_, rs₂, t, by simp, .deliver hplan h₁, h₂⟩
    | add hrest =>
      obtain ⟨rs₁, rs₂, t, rfl, h₁, h₂⟩ := ih hrest
      exact ⟨rs₁, rs₂, t, rfl, .add h₁, h₂⟩
    | remove hrest =>
      obtain ⟨rs₁, rs₂, t, rfl, h₁, h₂⟩ := ih hrest
      exact ⟨rs₁, rs₂, t, rfl, .remove h₁, h₂⟩
    | len hrest =>
      obtain ⟨rs₁, rs₂, t, rfl, h₁, h₂⟩ := ih hrest
      exact ⟨_, rs₂, t, rfl, .len h₁, h₂⟩
    | notify hsnapshot hrest =>
      obtain ⟨rs₁, rs₂, t, rfl, h₁, h₂⟩ := ih hrest
      exact ⟨_, rs₂, t, by simp, .notify hsnapshot h₁, h₂⟩
    | react hrest =>
      obtain ⟨rs₁, rs₂, t, rfl, h₁, h₂⟩ := ih hrest
      exact ⟨rs₁, rs₂, t, rfl, .react h₁, h₂⟩

/-! ## The list throughout a run -/

theorem Session.calls_takePlan (s : Session ε) (o : Observer) : (s.takePlan o).2.calls = s.calls := rfl

/-- The notifications that began, with their numbers and snapshots. -/
def notices (rs : List (Record ε)) : List (Nat × Watcher × ε) :=
  rs.filterMap fun
    | .begun call os e => some (call, os, e)
    | .delivered _ _ _ => none
    | .counted _ => none

@[simp]
theorem notices_nil : notices ([] : List (Record ε)) = [] := rfl

@[simp]
theorem notices_begun (call : Nat) (os : Watcher) (e : ε) :
    notices (.begun call os e :: rs) = (call, os, e) :: notices rs := rfl

@[simp]
theorem notices_delivered (call : Nat) (o : Observer) (e : ε) :
    notices (.delivered call o e :: rs) = notices rs := rfl

@[simp]
theorem notices_append : notices (rs ++ rs') = notices rs ++ notices rs' := List.filterMap_append

/-- The list stays an ordered set, and so every snapshot is one. -/
theorem Runs.distinct (h : Runs s tasks rs t) (hs : s.observers.Distinct) :
    t.observers.Distinct ∧ ∀ n ∈ notices rs, n.2.1.Distinct := by
  induction h with
  | done => exact ⟨hs, by simp⟩
  | deliver _ _ ihplan ihrest =>
    obtain ⟨ht, hplan⟩ := ihplan hs
    obtain ⟨hu, hrest⟩ := ihrest ht
    rw [notices_delivered, notices_append]
    exact ⟨hu, List.forall_mem_append.2 ⟨hplan, hrest⟩⟩
  | add _ ih => exact ih (hs.joined _)
  | remove _ ih => exact ih (hs.left _)
  | len _ ih => exact ih hs
  | notify _ _ ihnotice ihrest =>
    obtain ⟨ht, hnotice⟩ := ihnotice hs
    obtain ⟨hu, hrest⟩ := ihrest ht
    rw [notices_begun, notices_append]
    exact ⟨hu, List.forall_mem_cons.2 ⟨hs, List.forall_mem_append.2 ⟨hnotice, hrest⟩⟩⟩
  | react _ ih => exact ih hs

/-! ## Deliveries -/

/-- The deliveries of a notification among the records. -/
def heard (call : Nat) (rs : List (Record ε)) : List (Observer × ε) :=
  rs.filterMap fun
    | .delivered c o e => if c = call then some (o, e) else none
    | .begun _ _ _ => none
    | .counted _ => none

/-- The deliveries of a notification among the tasks. -/
def pending (call : Nat) (tasks : List (Task ε)) : List (Observer × ε) :=
  tasks.filterMap fun
    | .deliver c o e => if c = call then some (o, e) else none
    | .step _ => none

variable {k : Nat}

@[simp]
theorem heard_begun (call : Nat) (os : Watcher) (e : ε) : heard k (.begun call os e :: rs) = heard k rs := rfl

theorem heard_delivered (call : Nat) (o : Observer) (e : ε) :
    heard k (.delivered call o e :: rs) = (if call = k then [(o, e)] else []) ++ heard k rs := by
  unfold heard
  rw [List.filterMap_cons]
  by_cases hk : call = k <;> simp [hk]

@[simp]
theorem heard_append : heard k (rs ++ rs') = heard k rs ++ heard k rs' := List.filterMap_append

@[simp]
theorem pending_nil : pending k ([] : List (Task ε)) = [] := rfl

@[simp]
theorem pending_step (step : Step ε) : pending k (.step step :: tasks) = pending k tasks := rfl

theorem pending_deliver (call : Nat) (o : Observer) (e : ε) :
    pending k (.deliver call o e :: tasks) = (if call = k then [(o, e)] else []) ++ pending k tasks := by
  unfold pending
  rw [List.filterMap_cons]
  by_cases hk : call = k <;> simp [hk]

@[simp]
theorem pending_ofSteps (steps : List (Step ε)) : pending k (Task.ofSteps steps) = [] := by
  induction steps with
  | nil => rfl
  | cons step rest ih => exact ih

theorem pending_ofNotice (call : Nat) (os : Watcher) (e : ε) :
    pending k (Task.ofNotice call os e) = if call = k then os.map fun o => (o, e) else [] := by
  induction os with
  | nil => simp [Task.ofNotice]
  | cons o rest ih =>
    rw [Task.ofNotice, List.map_cons, pending_deliver]
    rw [Task.ofNotice] at ih
    rw [ih]
    split <;> simp

/-- The notifications that begin during a run are numbered one after the other. -/
theorem Runs.numbered (h : Runs s tasks rs t) :
    ∃ n, t.calls = s.calls + n ∧ (notices rs).map Prod.fst = List.range' s.calls n := by
  induction h with
  | done => exact ⟨0, rfl, rfl⟩
  | deliver _ _ ihplan ihrest =>
    obtain ⟨m, ht, hplan⟩ := ihplan
    obtain ⟨n, hu, hrest⟩ := ihrest
    rw [Session.calls_takePlan] at ht hplan
    refine ⟨m + n, by omega, ?_⟩
    rw [notices_delivered, notices_append, List.map_append, hplan, hrest, ht, ← List.range'_append_1]
  | add _ ih => exact ih
  | remove _ ih => exact ih
  | len _ ih => exact ih
  | @notify s t u e rest rs rs' _ _ ihnotice ihrest =>
    obtain ⟨m, ht, hnotice⟩ := ihnotice
    obtain ⟨n, hu, hrest⟩ := ihrest
    dsimp only at ht hnotice
    refine ⟨m + n + 1, by omega, ?_⟩
    rw [notices_begun, notices_append, List.map_cons, List.map_append, hnotice, hrest, ht, List.range'_succ,
      ← List.range'_append_1]
  | react _ ih => exact ih

theorem Runs.calls_le (h : Runs s tasks rs t) : s.calls ≤ t.calls := by
  obtain ⟨n, hn, -⟩ := h.numbered
  omega

theorem Runs.call_of_notice (h : Runs s tasks rs t) {n : Nat × Watcher × ε} (hn : n ∈ notices rs) :
    s.calls ≤ n.1 ∧ n.1 < t.calls := by
  obtain ⟨m, hm, hnumbers⟩ := h.numbered
  have hmem : n.1 ∈ (notices rs).map Prod.fst := List.mem_map_of_mem hn
  rw [hnumbers, List.mem_range'_1] at hmem
  omega

/-- Of a notification that had begun before, a run makes the deliveries that were left to do. -/
theorem Runs.heard_earlier (h : Runs s tasks rs t) (hk : k < s.calls) : heard k rs = pending k tasks := by
  induction h with
  | done => rfl
  | deliver hplan _ ihplan ihrest =>
    have ht := Nat.lt_of_lt_of_le hk hplan.calls_le
    rw [heard_delivered, heard_append, ihplan hk, ihrest ht, pending_ofSteps, pending_deliver, List.nil_append]
  | add _ ih => exact ih hk
  | remove _ ih => exact ih hk
  | len _ ih => exact ih hk
  | notify hnotice _ ihnotice ihrest =>
    have hs := Nat.lt_succ_of_lt hk
    have ht := Nat.lt_of_lt_of_le hs hnotice.calls_le
    rw [heard_begun, heard_append, ihnotice hs, ihrest ht, pending_ofNotice, if_neg (by omega), pending_step,
      List.nil_append]
  | react _ ih => exact ih hk

/-- All deliveries left to do are of notifications that have begun. -/
def Begun (s : Session ε) (tasks : List (Task ε)) : Prop := ∀ k, s.calls ≤ k → pending k tasks = []

theorem begun_ofSteps (s : Session ε) (steps : List (Step ε)) : Begun s (Task.ofSteps steps) :=
  fun _ _ => pending_ofSteps steps

theorem begun_ofNotice (s : Session ε) (e : ε) :
    Begun { s with calls := s.calls + 1 } (Task.ofNotice s.calls s.observers e) := by
  intro k hk
  dsimp only at hk
  rw [pending_ofNotice, if_neg (by omega)]

theorem Begun.mono (h : Begun s tasks) (hst : s.calls ≤ t.calls) : Begun t tasks :=
  fun k hk => h k (Nat.le_trans hst hk)

theorem Begun.of_deliver {call : Nat} {o : Observer} {e : ε} (h : Begun s (.deliver call o e :: tasks)) :
    call < s.calls ∧ Begun s tasks := by
  refine ⟨Nat.lt_of_not_le fun hle => ?_, fun k hk => ?_⟩
  · have hcall := h call hle
    simp [pending_deliver] at hcall
  · have hrest := h k hk
    rw [pending_deliver] at hrest
    exact (List.append_eq_nil_iff.1 hrest).2

/-- Of a notification that is yet to begin, nothing is delivered. -/
theorem Runs.heard_later (h : Runs s tasks rs t) (hb : Begun s tasks) (hk : t.calls ≤ k) : heard k rs = [] := by
  induction h with
  | done => rfl
  | @deliver s t u call o e rest rs rs' hplan hrest ihplan ihrest =>
    obtain ⟨hcall, hb⟩ := hb.of_deliver
    have hs := hplan.calls_le
    have ht := hrest.calls_le
    rw [Session.calls_takePlan] at hs
    rw [heard_delivered, if_neg (by omega), heard_append, ihplan (begun_ofSteps _ _) (by omega),
      ihrest (hb.mono hs) hk]
    rfl
  | add _ ih => exact ih hb hk
  | remove _ ih => exact ih hb hk
  | len _ ih => exact ih hb hk
  | @notify s t u e rest rs rs' hnotice hrest ihnotice ihrest =>
    have hs := hnotice.calls_le
    have ht := hrest.calls_le
    dsimp only at hs
    have hb' : Begun t rest := Begun.mono (s := s) hb (by omega)
    rw [heard_begun, heard_append, ihnotice (begun_ofNotice s e) (by omega), ihrest hb' hk]
    rfl
  | react _ ih => exact ih hb hk

/-- Each notification is delivered to the observers of its snapshot, once and in order. -/
theorem Runs.heard_notice (h : Runs s tasks rs t) (hb : Begun s tasks) :
    ∀ n ∈ notices rs, heard n.1 rs = n.2.1.map fun o => (o, n.2.2) := by
  induction h with
  | done => simp
  | @deliver s t u call o e rest rs rs' hplan hrest ihplan ihrest =>
    obtain ⟨hcall, hb⟩ := hb.of_deliver
    have hs := hplan.calls_le
    rw [Session.calls_takePlan] at hs
    intro n hn
    rw [notices_delivered, notices_append, List.mem_append] at hn
    rw [heard_delivered, heard_append]
    rcases hn with hn | hn
    · -- a notification by the observer: what follows has no delivery of it left
      obtain ⟨hge, hlt⟩ := hplan.call_of_notice hn
      rw [Session.calls_takePlan] at hge
      rw [if_neg (by omega), ihplan (begun_ofSteps _ _) n hn, hrest.heard_earlier hlt, hb _ hge]
      simp
    · -- a later notification: the observer has not delivered anything of it
      obtain ⟨hge, -⟩ := hrest.call_of_notice hn
      rw [if_neg (by omega), hplan.heard_later (begun_ofSteps _ _) hge, ihrest (hb.mono hs) n hn]
      rfl
  | add _ ih => exact ih hb
  | remove _ ih => exact ih hb
  | len _ ih => exact ih hb
  | @notify s t u e rest rs rs' hnotice hrest ihnotice ihrest =>
    have hs := hnotice.calls_le
    dsimp only at hs
    have hb' : Begun t rest := Begun.mono (s := s) hb (by omega)
    intro n hn
    rw [notices_begun, notices_append, List.mem_cons, List.mem_append] at hn
    rw [heard_begun, heard_append]
    rcases hn with rfl | hn | hn
    · -- the notification itself: its deliveries are the tasks that it leaves, and only these
      rw [hnotice.heard_earlier (Nat.lt_succ_self _), pending_ofNotice, if_pos rfl,
        hrest.heard_earlier (by dsimp only; omega)]
      simpa using hb s.calls (Nat.le_refl _)
    · obtain ⟨hge, hlt⟩ := hnotice.call_of_notice hn
      dsimp only at hge
      have hnone : pending n.1 rest = [] := hb n.1 (by omega)
      rw [ihnotice (begun_ofNotice s e) n hn, hrest.heard_earlier hlt, hnone, List.append_nil]
    · obtain ⟨hge, -⟩ := hrest.call_of_notice hn
      rw [hnotice.heard_later (begun_ofNotice s e) hge, ihrest hb' n hn]
      rfl
  | react _ ih => exact ih hb

/-- Nothing is delivered but by the notifications of a run. -/
theorem Runs.heard_other {steps : List (Step ε)} (h : Runs s (Task.ofSteps steps) rs t)
    (hk : k ∉ (notices rs).map Prod.fst) : heard k rs = [] := by
  obtain ⟨n, hn, hnumbers⟩ := h.numbered
  rw [hnumbers, List.mem_range'_1] at hk
  rcases Nat.lt_or_ge k s.calls with hlt | hge
  · rw [h.heard_earlier hlt, pending_ofSteps]
  · exact h.heard_later (begun_ofSteps s steps) (by omega)

end Watcher

end CounterLedger
