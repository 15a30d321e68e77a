/-
The order in which an observer hears of the calls. An announcement waits while an observer that it
has reached calls the host, and the calls made meanwhile are announced at once to all who watch. So
an observer may hear of a later call first, but only of one that another observer has made after it
heard of the earlier one; and an observer that is alone in calling the host hears of all calls in
the order of their heights. An observer that is not equal to itself may watch more than once. It
hears of a call as often, and each of its entries in the list may call the host before the others
are told.

The tasks left to do are a stack. The heights of the notifications on it fall from the top to the
bottom, and below a state-changing call there are only notifications of which some caller has been
told already.
-/
import CounterLedger.Contract.Sample
import CounterLedger.Proofs.Host.Session

namespace CounterLedger

namespace Ledger

section Order

variable (callers : Observer → Prop) (x : Observer)

/-- Before the notification with number `i`, an observer that calls the host was told of the height:
one other than `x`, if `x` is equal to itself. -/
def Told (ns : List (Observer × Event)) (i height : Nat) : Prop :=
  ∃ k < i, ∃ n, ns[k]? = some n ∧ n.2.height.toNat = height ∧ (n.1 = x → x.reflexive = false) ∧ callers n.1

/-- Two heights of which `x` hears one after the other, of the first by the notification with number
`i`: they rise; they are the same, and `x` is not equal to itself; or they fall, and another caller
was told of the second before. -/
def Fits (ns : List (Observer × Event)) (i first second : Nat) : Prop :=
  first < second ∨ (first = second ∧ x.reflexive = false) ∨ (second < first ∧ Told callers x ns i second)

/-- Every height of which `x` has heard fits with the one to come. -/
def Awaited (ns : List (Observer × Event)) (height : Nat) : Prop :=
  ∀ i e, ns[i]? = some (x, e) → Fits callers x ns i e.height.toNat height

/-- Any two heights of which `x` hears fit. -/
def InOrder (ns : List (Observer × Event)) : Prop :=
  ∀ i j e e', i < j → ns[i]? = some (x, e) → ns[j]? = some (x, e') →
    Fits callers x ns i e.height.toNat e'.height.toNat

end Order

variable {callers : Observer → Prop} {x : Observer} {ns : List (Observer × Event)}

theorem Told.append {i height : Nat} (h : Told callers x ns i height) (ms : List (Observer × Event)) :
    Told callers x (ns ++ ms) i height := by
  obtain ⟨k, hk, n, hn, hrest⟩ := h
  obtain ⟨hlt, -⟩ := List.getElem?_eq_some_iff.1 hn
  exact ⟨k, hk, n, by rw [List.getElem?_append_left hlt, hn], hrest⟩

theorem Told.mono {i j height : Nat} (h : Told callers x ns i height) (hij : i ≤ j) : Told callers x ns j height := by
  obtain ⟨k, hk, hrest⟩ := h
  exact ⟨k, by omega, hrest⟩

/-- Everyone who is told, is told before what comes next. -/
theorem Told.later {height : Nat} (h : Told callers x ns ns.length height) (n : Observer × Event) :
    Told callers x (ns ++ [n]) (ns ++ [n]).length height :=
  (h.append [n]).mono (by simp)

theorem told_last {y : Observer} {e : Event} (hy : callers y) (hne : y = x → x.reflexive = false) :
    Told callers x (ns ++ [(y, e)]) (ns ++ [(y, e)]).length e.height.toNat :=
  ⟨ns.length, by simp, (y, e), by simp, rfl, hne, hy⟩

theorem Fits.append {i first second : Nat} (h : Fits callers x ns i first second) (ms : List (Observer × Event)) :
    Fits callers x (ns ++ ms) i first second := by
  rcases h with hlt | heq | ⟨hgt, htold⟩
  · exact .inl hlt
  · exact .inr (.inl heq)
  · exact .inr (.inr ⟨hgt, htold.append ms⟩)

theorem getElem?_concat_cases {α : Type} {as : List α} {a b : α} {i : Nat} (h : (as ++ [a])[i]? = some b) :
    as[i]? = some b ∨ (i = as.length ∧ a = b) := by
  obtain ⟨hi, hb⟩ := List.getElem?_eq_some_iff.1 h
  rcases Nat.lt_or_ge i as.length with hlt | hge
  · left
    rwa [List.getElem?_append_left hlt] at h
  · right
    have hlen : i = as.length := by
      rw [List.length_append, List.length_singleton] at hi
      omega
    subst hlen
    exact ⟨rfl, by simpa using hb⟩

/-- A height still fits when `x` hears of a greater one, if another caller was told of it; and when
`x`, which is not equal to itself, hears of the same. -/
theorem Awaited.concat {height : Nat} (h : Awaited callers x ns height) {y : Observer} {e : Event}
    (hy : y = x → (e.height.toNat = height ∧ x.reflexive = false) ∨
      (height < e.height.toNat ∧ Told callers x ns ns.length height)) :
    Awaited callers x (ns ++ [(y, e)]) height := by
  intro i e' hi
  rcases getElem?_concat_cases hi with hi | ⟨rfl, hlast⟩
  · exact (h i e' hi).append _
  · cases hlast
    rcases hy rfl with hsame | ⟨hgt, htold⟩
    · exact .inr (.inl hsame)
    · exact .inr (.inr ⟨hgt, htold.append _⟩)

theorem InOrder.concat (h : InOrder callers x ns) {y : Observer} {e : Event}
    (hy : y = x → Awaited callers x ns e.height.toNat) : InOrder callers x (ns ++ [(y, e)]) := by
  intro i j a b hij hi hj
  obtain ⟨hjlt, -⟩ := List.getElem?_eq_some_iff.1 hj
  rw [List.length_append, List.length_singleton] at hjlt
  have hi' : ns[i]? = some (x, a) := by rwa [List.getElem?_append_left (by omega)] at hi
  rcases getElem?_concat_cases hj with hj | ⟨-, hlast⟩
  · exact (h i j a b hij hi' hj).append _
  · cases hlast
    exact (hy rfl i a hi').append _

/-! ## The stack of tasks -/

/-- The notification that a task is, if it is one. -/
def Task.notice : Task → Option (Observer × Event)
  | .notify o e => some (o, e)
  | _ => none

section Stack

variable (callers x ns)

/-- What a task above another one on the stack means for a notification below: its height is no
greater, and smaller if both are for `x`, unless `x` is not equal to itself; and below a
state-changing call, another caller was told of the height. -/
def Task.Above (t u : Task) : Prop :=
  ∀ n, u.notice = some n →
    (∀ m, t.notice = some m → n.2.height.toNat ≤ m.2.height.toNat ∧
      (m.1 = x → n.1 = x → x.reflexive → n.2.height.toNat < m.2.height.toNat)) ∧
    (¬ t.Passive → n.1 = x → Told callers x ns ns.length n.2.height.toNat)

/-- What is known of each notification on the stack when the host has reached a height. -/
def Task.Due (top : Nat) (t : Task) : Prop :=
  ∀ n, t.notice = some n → n.2.height.toNat ≤ top ∧
    (n.1 = x → Awaited callers x ns n.2.height.toNat ∧
      (n.2.height.toNat < top → Told callers x ns ns.length n.2.height.toNat))

/-- A stack of tasks in good order. -/
structure Stacked (top : Nat) (tasks : List Task) : Prop where
  due : ∀ t ∈ tasks, t.Due callers x ns top
  falling : tasks.Pairwise (Task.Above callers x ns)

/-- What has been delivered is in good order, for a host that follows the one at the start. -/
structure Delivered (h₀ : Host) (l : Ledger) : Prop where
  follows : h₀.Follows l.host
  distinct : l.watcher.Distinct
  plans : ∀ p ∈ l.plans, (∃ r ∈ p.2, ¬ r.Passive) → callers p.1
  below : ∀ n ∈ ns, n.2.height.toNat ≤ h₀.reached l.host
  ordered : InOrder callers x ns

end Stack

theorem Stacked.tail {top : Nat} {t : Task} {rest : List Task} (h : Stacked callers x ns top (t :: rest)) :
    Stacked callers x ns top rest :=
  ⟨fun u hu => h.due u (List.mem_cons_of_mem _ hu), (List.pairwise_cons.1 h.falling).2⟩

theorem Stacked.settle {top : Nat} {rest : List Task} (h : Stacked callers x ns top rest) (n : Nat) (r : Reacted) :
    Stacked callers x ns top (.settle n r :: rest) := by
  constructor
  · intro t ht m hm
    rcases List.mem_cons.1 ht with rfl | ht
    · cases hm
    · exact h.due t ht m hm
  · refine List.pairwise_cons.2 ⟨?_, h.falling⟩
    intro u _ m _
    exact ⟨fun _ hn => (by cases hn), fun hactive => absurd trivial hactive⟩

/-- A notification is taken from the stack, and reactions take its place. The observer that reacts
with a call was told of this height or, for the notifications below, has been passed by another
caller that was. -/
theorem Stacked.notify {top : Nat} {y : Observer} {e : Event} {rest : List Task}
    (h : Stacked callers x ns top (.notify y e :: rest)) {rs : List Reaction}
    (hrs : (∃ r ∈ rs, ¬ r.Passive) → callers y) (n : Nat) :
    Stacked callers x (ns ++ [(y, e)]) top (Task.ofReactions n rs ++ rest) := by
  obtain ⟨habove, hrest⟩ := List.pairwise_cons.1 h.falling
  have htop : e.height.toNat ≤ top := (h.due (.notify y e) List.mem_cons_self (y, e) rfl).1
  have hlower : ∀ u ∈ rest, ∀ m, u.notice = some m → m.1 = x → m.2.height.toNat < e.height.toNat →
      Told callers x ns ns.length m.2.height.toNat := by
    intro u hu m hm hmx hlt
    obtain ⟨-, hdue⟩ := h.due u (List.mem_cons_of_mem _ hu) m hm
    exact (hdue hmx).2 (by omega)
  -- only an observer that is not equal to itself waits for the same height twice
  have hsame : ∀ u ∈ rest, ∀ m, u.notice = some m → m.1 = x → e.height.toNat ≤ m.2.height.toNat →
      e.height.toNat = m.2.height.toNat ∧ (y = x → x.reflexive = false) := by
    intro u hu m hm hmx hge
    obtain ⟨hle, hstrict⟩ := (habove u hu m hm).1 (y, e) rfl
    refine ⟨Nat.le_antisymm hge hle, fun hyx => Bool.eq_false_iff.2 fun hx => ?_⟩
    exact Nat.not_lt.2 hge (hstrict hyx hmx hx)
  constructor
  · intro u hu m hm
    rcases List.mem_append.1 hu with hu | hu
    · obtain ⟨r, -, rfl⟩ := List.mem_map.1 hu
      cases hm
    · obtain ⟨hle, hdue⟩ := h.due u (List.mem_cons_of_mem _ hu) m hm
      refine ⟨hle, fun hmx => ?_⟩
      obtain ⟨hawaited, hlow⟩ := hdue hmx
      refine ⟨hawaited.concat fun hyx => ?_, fun hlt => (hlow hlt).later _⟩
      rcases Nat.lt_or_ge m.2.height.toNat e.height.toNat with hlt | hge
      · exact .inr ⟨hlt, hlower u hu m hm hmx hlt⟩
      · obtain ⟨heq, hx⟩ := hsame u hu m hm hmx hge
        exact .inl ⟨heq, hx hyx⟩
  · refine List.pairwise_append.2 ⟨?_, ?_, ?_⟩
    · refine List.pairwise_map.2 (List.pairwise_of_forall fun r r' m hm => ?_)
      cases hm
    · refine hrest.imp fun {t u} htu m hm => ?_
      obtain ⟨hfall, hcall⟩ := htu m hm
      exact ⟨hfall, fun hactive hmx => (hcall hactive hmx).later _⟩
    · intro t ht u hu m hm
      obtain ⟨r, hr, rfl⟩ := List.mem_map.1 ht
      refine ⟨fun _ hn => (by cases hn), fun hactive hmx => ?_⟩
      -- the height below is that of the event, or another caller was told of it before
      rcases Nat.lt_or_ge m.2.height.toNat e.height.toNat with hlt | hge
      · exact (hlower u hu m hm hmx hlt).later _
      · obtain ⟨heq, hx⟩ := hsame u hu m hm hmx hge
        rw [← heq]
        exact told_last (hrs ⟨r, hr, hactive⟩) hx

/-- The notifications of an event to observers of which those that are equal to themselves occur
once. -/
theorem Task.above_ofEvent {w : Watcher} (hw : w.Distinct) (e : Event) :
    (Task.ofEvent w e).Pairwise (Task.Above callers x ns) := by
  have hpairs : w.Pairwise fun a b => a.reflexive → b.reflexive → a ≠ b := List.pairwise_filter.1 hw
  refine List.pairwise_map.2 (hpairs.imp fun {a b} hab m hm => ?_)
  cases hm
  refine ⟨fun n hn => ?_, fun hactive => absurd trivial hactive⟩
  cases hn
  refine ⟨Nat.le_refl _, fun ha hb hx => ?_⟩
  obtain rfl : a = x := ha
  obtain rfl : b = a := hb
  exact absurd rfl (hab hx hx)

/-- A new event goes on top of the stack. -/
theorem Stacked.announce {top : Nat} {rest : List Task} (h : Stacked callers x ns top rest)
    (htold : ∀ u ∈ rest, ∀ m, u.notice = some m → m.1 = x → Told callers x ns ns.length m.2.height.toNat)
    (hbelow : ∀ n ∈ ns, n.2.height.toNat ≤ top) {w : Watcher} (hw : w.Distinct) {e : Event}
    (he : e.height.toNat = top + 1) : Stacked callers x ns (top + 1) (Task.ofEvent w e ++ rest) := by
  constructor
  · intro u hu m hm
    rcases List.mem_append.1 hu with hu | hu
    · obtain ⟨o, -, rfl⟩ := List.mem_map.1 hu
      cases hm
      refine ⟨he.le, fun _ => ⟨fun i e' hi => .inl ?_, fun hlt => ?_⟩⟩
      · have hle := hbelow _ (List.mem_of_getElem? hi)
        simp only at hle ⊢
        omega
      · simp only at hlt
        omega
    · obtain ⟨hle, hdue⟩ := h.due u hu m hm
      exact ⟨by omega, fun hmx => ⟨(hdue hmx).1, fun _ => htold u hu m hm hmx⟩⟩
  · refine List.pairwise_append.2 ⟨Task.above_ofEvent hw e, h.falling, ?_⟩
    intro t ht u hu m hm
    obtain ⟨o, -, rfl⟩ := List.mem_map.1 ht
    obtain ⟨hle, -⟩ := h.due u hu m hm
    refine ⟨fun n hn => ?_, fun hactive => absurd trivial hactive⟩
    cases hn
    simp only
    exact ⟨by omega, fun _ _ _ => by omega⟩

/-! ## Runs -/

/-- A host that follows another one and has not fallen below a height keeps it up, whatever is called. -/
def Grown (h₀ : Host) (n : Nat) (h : Host) : Prop := h₀.Follows h ∧ n ≤ h₀.reached h

theorem Grown.query {h₀ : Host} {n : Nat} (h : Host) (name : Bytes) (msg : Payload) (hg : Grown h₀ n h) :
    Grown h₀ n (h.query name msg).host := by
  refine ⟨hg.1.query name msg, ?_⟩
  rw [h₀.reached_query]
  exact hg.2

theorem Grown.invoke {h₀ : Host} {n : Nat} (h : Host) (action : Action) (caller : Address) (name : Bytes)
    (msg : Payload) (hg : Grown h₀ n h) : Grown h₀ n (h.invoke action caller name msg).host := by
  obtain ⟨hf, hle⟩ := hg
  refine ⟨(hf.invoke action caller name msg).1, ?_⟩
  rw [hf.reached_invoke]
  omega

theorem Grown.runTasks {h₀ : Host} {n : Nat} {p : Progress} (hg : Grown h₀ n p.ledger.host) (tasks : List Task) :
    Grown h₀ n (runTasks p tasks).2.ledger.host :=
  runTasks_keeps Grown.query Grown.invoke p tasks hg

theorem Grown.step {h₀ : Host} {n : Nat} {l : Ledger} (hg : Grown h₀ n l.host) (c : Command) :
    Grown h₀ n (obey c l).2.host := by
  cases c with
  | call action caller name msg => exact call_keeps Grown.query Grown.invoke (hg.invoke _ action caller name msg)
  | query name msg => exact hg.query _ name msg
  | watch o => rwa [obey, watch_eq]
  | unwatch o => rwa [obey, unwatch_eq]
  | plan o reactions => exact hg
  | tick time => exact ⟨hg.1.congr rfl rfl rfl, hg.2⟩

theorem notices_reacted (p : Progress) (n : Nat) (r : Reacted) :
    notices (p.note (.reacted n r)).records.reverse = notices p.records.reverse := by
  simp [Progress.note, notices, Record.notice]

theorem Delivered.query {h₀ : Host} {l : Ledger} (hd : Delivered callers x ns h₀ l) (name : Bytes) (msg : Payload) :
    Delivered callers x ns h₀ { l with host := (l.host.query name msg).host } := by
  refine ⟨hd.follows.query name msg, hd.distinct, hd.plans, ?_, hd.ordered⟩
  rw [Host.reached_query]
  exact hd.below

theorem Delivered.invoke {h₀ : Host} {l : Ledger} (hd : Delivered callers x ns h₀ l) (action : Action)
    (caller : Address) (name : Bytes) (msg : Payload) :
    Delivered callers x ns h₀ { l with host := (l.host.invoke action caller name msg).host } := by
  refine ⟨(hd.follows.invoke action caller name msg).1, hd.distinct, hd.plans, fun n hn => ?_, hd.ordered⟩
  have hle := hd.below n hn
  rw [hd.follows.reached_invoke]
  omega

/-- The event of a committed call is one higher than all before, as long as heights do not wrap. -/
theorem Delivered.event {h₀ : Host} {l : Ledger} (hd : Delivered callers x ns h₀ l) {action : Action}
    {caller : Address} {name : Bytes} {msg : Payload} {e : Event}
    (he : (l.host.invoke action caller name msg).outcome = .ok e)
    (hbound : h₀.reached (l.host.invoke action caller name msg).host < 2 ^ 64) :
    h₀.reached (l.host.invoke action caller name msg).host = h₀.reached l.host + 1 ∧
      e.height.toNat = h₀.reached l.host + 1 := by
  obtain ⟨hheight, hgrown⟩ := hd.follows.committed he
  rw [hgrown] at hbound
  refine ⟨hgrown, ?_⟩
  rw [hheight]
  exact UInt64.toNat_ofNat_of_lt' hbound

/-- Whatever observers do, a stack of tasks in good order delivers in good order. -/
theorem runTasks_delivered {h₀ : Host} (past : List (Observer × Event)) (p : Progress) (tasks : List Task)
    (hd : Delivered callers x (past ++ notices p.records.reverse) h₀ p.ledger)
    (hs : Stacked callers x (past ++ notices p.records.reverse) (h₀.reached p.ledger.host) tasks)
    (hbound : h₀.reached (runTasks p tasks).2.ledger.host < 2 ^ 64) :
    Delivered callers x (past ++ notices (runTasks p tasks).2.records.reverse) h₀ (runTasks p tasks).2.ledger := by
  -- only a notification and a committed call touch what is delivered or the order of the stack
  fun_induction runTasks p tasks with
  | case1 p => exact hd
  | case2 p e rest => exact hd
  | case3 p o e rest ho next ih =>
    obtain ⟨htaken, hothers⟩ := Plans.mem_of_take p.ledger.plans o
    have hcalls : (∃ r ∈ (p.ledger.plans.take o).1, ¬ r.Passive) → callers o := by
      rintro ⟨r, hr, hactive⟩
      obtain ⟨q, hq, hqo, hrq⟩ := htaken r hr
      rw [← hqo]
      exact hd.plans q hq ⟨r, hrq, hactive⟩
    have hns : past ++ notices next.1.records.reverse = past ++ notices p.records.reverse ++ [(o, e)] := by
      simp [next, Progress.notify, Progress.note, notices, Record.notice]
    have hdue := hs.due (.notify o e) List.mem_cons_self (o, e) rfl
    refine ih ?_ ?_ hbound
    · rw [hns]
      refine ⟨hd.follows, hd.distinct, fun q hq => hd.plans q (hothers q hq), ?_, ?_⟩
      · intro n hn
        rcases List.mem_append.1 hn with hn | hn
        · exact hd.below n hn
        · rw [List.mem_singleton.1 hn]
          exact hdue.1
      · exact hd.ordered.concat fun hox => (hdue.2 hox).1
    · rw [hns]
      exact hs.notify hcalls _
  | case4 p n r rest ih =>
    rw [notices_reacted] at ih
    exact ih hd hs.tail hbound
  | case5 p n o rest hadd => exact hd
  | case6 p n o rest w hadd ih =>
    rw [notices_reacted] at ih
    obtain rfl := Watcher.eq_joined hadd
    exact ih ⟨hd.follows, hd.distinct.joined o, hd.plans, hd.below, hd.ordered⟩ hs.tail hbound
  | case7 p n o rest hremove => exact hd
  | case8 p n o rest w hremove ih =>
    rw [notices_reacted] at ih
    obtain rfl := Watcher.eq_left hremove
    exact ih ⟨hd.follows, hd.distinct.left o, hd.plans, hd.below, hd.ordered⟩ hs.tail hbound
  | case9 p n name msg rest r reason hr => exact hd.query name msg
  | case10 p n name msg rest r hr ih =>
    rw [notices_reacted] at ih
    refine ih (hd.query name msg) ?_ hbound
    have hrest := hs.tail
    rw [← Host.reached_query h₀ p.ledger.host name msg] at hrest
    exact hrest
  | case11 p n action caller name msg rest r reason hr => exact hd.invoke action caller name msg
  | case12 p n action caller name msg rest r e hr ih =>
    rw [notices_reacted] at ih
    refine ih (hd.invoke action caller name msg) ?_ hbound
    have hrest := hs.tail
    have hsame : h₀.reached r.host = h₀.reached p.ledger.host := by
      rw [hd.follows.reached_invoke, show (p.ledger.host.invoke action caller name msg).outcome = .error e from hr]
      rfl
    rw [← hsame] at hrest
    exact hrest
  | case13 p n action caller name msg rest r e hr announced ih =>
    have hcalled := hd.invoke action caller name msg
    have hup : Grown h₀ (h₀.reached r.host) (p.after r).ledger.host := ⟨hcalled.follows, Nat.le_refl _⟩
    have hle := (hup.runTasks (announced ++ .settle n (.response (.ok e.response)) :: rest)).2
    obtain ⟨hgrown, hheight⟩ := hd.event hr (Nat.lt_of_le_of_lt hle hbound)
    refine ih hcalled ?_ hbound
    -- what is below the call has been told to another caller, so that a new event may pass it
    have htold : ∀ u ∈ Task.settle n (.response (.ok e.response)) :: rest, ∀ m, u.notice = some m → m.1 = x →
        Told callers x (past ++ notices p.records.reverse) (past ++ notices p.records.reverse).length m.2.height.toNat := by
      intro u hu m hm hmx
      rcases List.mem_cons.1 hu with rfl | hu
      · cases hm
      · exact (((List.pairwise_cons.1 hs.falling).1 u hu m hm).2 (fun hpassive => hpassive)) hmx
    have hstack := (hs.tail.settle n (.response (.ok e.response))).announce htold hd.below hd.distinct hheight
    rw [← hgrown] at hstack
    exact hstack

/-- What one command delivers comes in good order after what was delivered before. -/
theorem Delivered.step {h₀ : Host} {l : Ledger} (hd : Delivered callers x ns h₀ l) {c : Command}
    (hc : ∀ o rs, c = .plan o rs → (∃ r ∈ rs, ¬ r.Passive) → callers o)
    (hbound : h₀.reached (obey c l).2.host < 2 ^ 64) :
    Delivered callers x (ns ++ notices (obey c l).1.records) h₀ (obey c l).2 := by
  have hnone : ns ++ notices [] = ns := List.append_nil ns
  have hsilent : ∀ l', Delivered callers x ns h₀ l' → Delivered callers x (ns ++ notices []) h₀ l' := by
    intro l' h
    rwa [hnone]
  cases c with
  | call action caller name msg =>
    have hcalled := hd.invoke action caller name msg
    simp only [Ledger.obey] at hbound ⊢
    by_cases hok : ∃ e, (l.host.invoke action caller name msg).outcome = .ok e
    · obtain ⟨e, he⟩ := hok
      obtain ⟨-, hledger, hrecords⟩ := call_of_ok he
      rw [hledger] at hbound
      rw [hledger, hrecords]
      have hup : Grown h₀ (h₀.reached (l.host.invoke action caller name msg).host)
          (l.host.invoke action caller name msg).host := ⟨hcalled.follows, Nat.le_refl _⟩
      have hle := (hup.runTasks (p := { ledger := { l with host := (l.host.invoke action caller name msg).host } })
        (Task.ofEvent l.watcher e)).2
      obtain ⟨hgrown, hheight⟩ := hd.event he (Nat.lt_of_le_of_lt hle hbound)
      have hempty : Stacked callers x ns (h₀.reached l.host) [] := ⟨by simp, List.Pairwise.nil⟩
      have hstack := hempty.announce (by simp) hd.below hd.distinct hheight
      rw [← hgrown, List.append_nil, ← hnone] at hstack
      exact runTasks_delivered ns _ _ (hsilent _ hcalled) hstack hbound
    · obtain ⟨-, hledger, hrecords⟩ := call_of_not_ok fun e he => hok ⟨e, he⟩
      rw [hledger, hrecords, hnone]
      exact hcalled
  | query name msg =>
    exact hsilent _ (hd.query name msg)
  | watch o =>
    rw [Ledger.obey, watch_eq]
    exact hsilent _ ⟨hd.follows, watch_distinct hd.distinct o, hd.plans, hd.below, hd.ordered⟩
  | unwatch o =>
    rw [Ledger.obey, unwatch_eq]
    exact hsilent _ ⟨hd.follows, unwatch_distinct hd.distinct o, hd.plans, hd.below, hd.ordered⟩
  | plan o reactions =>
    refine hsilent _ ⟨hd.follows, hd.distinct, fun p hp hactive => ?_, hd.below, hd.ordered⟩
    rcases List.mem_cons.1 hp with rfl | hp
    · exact hc o reactions rfl hactive
    · exact hd.plans p ((Plans.mem_of_take l.plans o).2 p hp) hactive
  | tick time =>
    exact hsilent _ ⟨hd.follows.congr rfl rfl rfl, hd.distinct, hd.plans, hd.below, hd.ordered⟩

/-- All notifications of a run, in order. -/
def deliveries (cs : List Command) (l : Ledger) : List (Observer × Event) :=
  (transcript obey cs l).1.flatMap fun s => notices s.records

/-- The heights among notifications of which an observer was told. -/
def heightsOf (x : Observer) (ns : List (Observer × Event)) : List Nat :=
  (ns.filter fun n => n.1 = x).map fun n => n.2.height.toNat

theorem Delivered.run {h₀ : Host} {l : Ledger} (hd : Delivered callers x ns h₀ l) {cs : List Command}
    (hcs : ∀ o rs, .plan o rs ∈ cs → (∃ r ∈ rs, ¬ r.Passive) → callers o)
    (hbound : h₀.reached (transcript obey cs l).2.host < 2 ^ 64) :
    Delivered callers x (ns ++ deliveries cs l) h₀ (transcript obey cs l).2 := by
  induction cs generalizing ns l with
  | nil =>
    rw [show deliveries [] l = [] from rfl, List.append_nil]
    exact hd
  | cons c rest ih =>
    have hgrown : Grown h₀ (h₀.reached (obey c l).2.host) (obey c l).2.host :=
      ⟨(Grown.step ⟨hd.follows, Nat.le_refl _⟩ c).1, Nat.le_refl _⟩
    have hle : h₀.reached (obey c l).2.host ≤ h₀.reached (transcript obey rest (obey c l).2).2.host :=
      (transcript_invariant (I := fun l' : Ledger => Grown h₀ _ l'.host) (fun i (_ : i ∈ rest) _ hg => hg.step i)
        hgrown).2
    have hnext := hd.step (fun o rs hplan => hcs o rs (hplan ▸ List.mem_cons_self)) (Nat.lt_of_le_of_lt hle hbound)
    have hlast := ih hnext (fun o rs hplan => hcs o rs (List.mem_cons_of_mem _ hplan)) hbound
    rwa [List.append_assoc] at hlast

/-- The observers that plan a state-changing call, at the start or by a command. -/
def Calls (l : Ledger) (cs : List Command) (y : Observer) : Prop :=
  (∃ p ∈ l.plans, p.1 = y ∧ ∃ r ∈ p.2, ¬ r.Passive) ∨ ∃ rs, .plan y rs ∈ cs ∧ ∃ r ∈ rs, ¬ r.Passive

/-- What fits pair by pair comes in that order. -/
theorem InOrder.pairwise {R : Nat → Nat → Prop} (h : InOrder callers x ns)
    (hR : ∀ i first second, Fits callers x ns i first second → R first second) : (heightsOf x ns).Pairwise R := by
  unfold heightsOf
  rw [List.pairwise_map, List.pairwise_filter, List.pairwise_iff_getElem]
  intro i j hi hj hij ha hb
  simp only [decide_eq_true_eq] at ha hb
  have hfirst : ns[i]? = some (x, ns[i].2) := by rw [List.getElem?_eq_getElem hi, ← ha]
  have hsecond : ns[j]? = some (x, ns[j].2) := by rw [List.getElem?_eq_getElem hj, ← hb]
  exact hR i _ _ (h i j _ _ hij hfirst hsecond)

/-- When no observer but `x` itself calls the host, and `x` is equal to itself, what `x` hears comes in
the order of heights. -/
theorem InOrder.increasing (h : InOrder callers x ns) (hx : x.reflexive) (hcallers : ∀ y, callers y → y = x) :
    (heightsOf x ns).Pairwise (· < ·) := by
  refine h.pairwise fun i first second hfits => ?_
  rcases hfits with hlt | ⟨-, hnot⟩ | ⟨-, k, -, n, -, -, hne, hcalls⟩
  · exact hlt
  · rw [hx] at hnot
    cases hnot
  · have hnot := hne (hcallers n.1 hcalls)
    rw [hx] at hnot
    cases hnot

/-- When no observer calls the host, no height comes after a greater one. -/
theorem InOrder.nondecreasing (h : InOrder callers x ns) (hcallers : ∀ y, ¬ callers y) :
    (heightsOf x ns).Pairwise (· ≤ ·) := by
  refine h.pairwise fun i first second hfits => ?_
  rcases hfits with hlt | ⟨heq, -⟩ | ⟨-, k, -, n, -, -, -, hcalls⟩
  · exact hlt.le
  · exact heq.le
  · exact absurd hcalls (hcallers n.1)

/-- The order in which an observer of any kind hears of the calls of a run with fewer than 2^64
committed calls, whatever observers do: by their heights, but for a call of which another observer
that calls the host was told before. Only an observer that is not equal to itself hears of a height
more than once, and for it the other observer may be another entry of its own. So if nobody else calls
the host, the heights are strictly increasing for an observer that is equal to itself; and if nobody
calls it at all, they never fall. -/
theorem deliveries_ordered {l : Ledger} (hworks : l.host.Works) (hdistinct : l.watcher.Distinct)
    {cs : List Command} (hbound : l.host.reached (transcript obey cs l).2.host < 2 ^ 64) (x : Observer) :
    InOrder (Calls l cs) x (deliveries cs l) ∧
      (x.reflexive → (∀ y, Calls l cs y → y = x) → (heightsOf x (deliveries cs l)).Pairwise (· < ·)) ∧
      ((∀ y, ¬ Calls l cs y) → (heightsOf x (deliveries cs l)).Pairwise (· ≤ ·)) := by
  have hstart : Delivered (Calls l cs) x [] l.host l := by
    refine ⟨Host.Follows.refl hworks, hdistinct, ?_, by simp, ?_⟩
    · rintro p hp ⟨r, hr, hactive⟩
      exact .inl ⟨p, hp, rfl, r, hr, hactive⟩
    · intro i j e e' _ hi
      cases hi
  have hend := hstart.run (fun o rs hplan hactive => .inr ⟨rs, hplan, hactive⟩) hbound
  rw [List.nil_append] at hend
  exact ⟨hend.ordered, hend.ordered.increasing, hend.ordered.nondecreasing⟩

/-! ## An observer that calls the host -/

/-- Without plans, observers that are there are notified one after the other. -/
theorem runTasks_notify_all (p : Progress) (hp : p.ledger.plans = []) {os : List Observer} (hos : .missing ∉ os)
    (e : Event) (rest : List Task) :
    runTasks p (os.map (fun o => .notify o e) ++ rest) =
      runTasks { p with notices := p.notices + os.length
                        records := (os.map fun o => Record.notified o e).reverse ++ p.records } rest := by
  induction os generalizing p with
  | nil => rfl
  | cons o os ih =>
    obtain ⟨ho, hos⟩ := not_or.1 (mt List.mem_cons.2 hos)
    have hnext : p.notify o e = ({ p with notices := p.notices + 1, records := .notified o e :: p.records }, []) := by
      obtain ⟨⟨host, watcher, plans⟩, notices, records, logs⟩ := p
      cases hp
      rfl
    simp only [List.map_cons, List.cons_append]
    rw [runTasks, if_neg (Ne.symm ho)]
    simp only [hnext, Task.ofReactions, List.map_nil, List.nil_append]
    rw [ih { p with notices := p.notices + 1, records := .notified o e :: p.records } hp hos]
    simp [Nat.add_comm, Nat.add_left_comm]

/-- When the first observer makes a call at its next event, all the others hear of this call before
they hear of the event that set it off. -/
theorem call_overtaken {l : Ledger} {a : Observer} {others : List Observer} (hw : l.watcher = a :: others)
    (hmissing : .missing ∉ l.watcher) {action action' : Action} {caller caller' : Address} {name name' : Bytes}
    {msg msg' : Payload} (hplans : l.plans = [(a, [.call action' caller' name' msg'])]) {e e' : Event}
    (he : (l.host.invoke action caller name msg).outcome = .ok e)
    (he' : ((l.host.invoke action caller name msg).host.invoke action' caller' name' msg').outcome = .ok e') :
    notices (l.call action caller name msg).records =
        (a, e) :: (a, e') :: (others.map (fun o => (o, e')) ++ others.map fun o => (o, e)) ∧
      (l.call action caller name msg).ledger.host =
        ((l.host.invoke action caller name msg).host.invoke action' caller' name' msg').host := by
  obtain ⟨-, hledger, hrecords⟩ := call_of_ok he
  rw [hledger, hrecords]
  obtain ⟨host, watcher, plans⟩ := l
  cases hw
  cases hplans
  obtain ⟨ha, hothers⟩ := not_or.1 (mt List.mem_cons.2 hmissing)
  generalize host.invoke action caller name msg = c at he he' ⊢
  -- the first observer is told, and its plan is on top of the stack
  have hfirst : runTasks
      { ledger := { host := c.host, watcher := a :: others, plans := [(a, [.call action' caller' name' msg'])] } }
      (Task.ofEvent (a :: others) e) =
        runTasks { ledger := { host := c.host, watcher := a :: others }, notices := 1, records := [.notified a e] }
          (.react 0 (.call action' caller' name' msg') :: others.map fun o => .notify o e) := by
    rw [Task.ofEvent, List.map_cons, runTasks, if_neg (Ne.symm ha)]
    simp [Progress.notify, Progress.note, Plans.take, Task.ofReactions]
  -- its call is announced before the others hear of the first one
  have hsecond : runTasks
      { ledger := { host := c.host, watcher := a :: others }, notices := 1, records := [.notified a e] }
      (.react 0 (.call action' caller' name' msg') :: others.map fun o => .notify o e) =
        runTasks (Progress.after
          { ledger := { host := c.host, watcher := a :: others }, notices := 1, records := [.notified a e] }
          (c.host.invoke action' caller' name' msg'))
          ((a :: others).map (fun o => .notify o e') ++
            (.settle 0 (.response (.ok e'.response)) :: others.map fun o => .notify o e)) := by
    rw [runTasks]
    simp only [he', Task.ofEvent]
  have hall := fun p hp => runTasks_notify_all p hp hothers e []
  simp only [List.append_nil] at hall
  simp only [hfirst, hsecond]
  rw [runTasks_notify_all _ rfl hmissing, runTasks, hall _ rfl, runTasks]
  have hnoticed : ∀ e : Event, others.filterMap (Record.notice ∘ fun o => .notified o e) =
      others.map fun o => (o, e) := fun _ => congrFun List.filterMap_eq_map others
  simp [Progress.after, Progress.note, notices, List.filterMap_cons, Record.notice, hnoticed]

/-- A slice, which watches every time it is added. -/
def sampleSlice : Observer := .value (.closed [0x73] [])

/-- A host with a contract that does nothing, and observers of which the first makes a call when it is
told of one: two objects, and a slice that was added twice. -/
def nestingLedger : Ledger where
  host := { service := { contracts := Table.empty.insert [0x6e] (some Sample.noop) } }
  watcher := [.handle [1], .handle [2], sampleSlice, sampleSlice]
  plans := [(.handle [1], [.call .execute ⟨[0x78]⟩ [0x6e] none])]

/-- The call that sets off the other one. -/
def nestingCommands : List Command := [.call .instantiate ⟨[0x78]⟩ [0x6e] none]

theorem nestingLedger_works : nestingLedger.host.Works := ⟨rfl, rfl⟩

theorem nestingLedger_distinct : nestingLedger.watcher.Distinct := by
  unfold Watcher.Distinct
  decide

/-- The other observers hear of the height 2 before they hear of the height 1. -/
theorem deliveries_nesting :
    nestingLedger.host.reached (transcript obey nestingCommands nestingLedger).2.host = 2 ∧
      ∃ e e', deliveries nestingCommands nestingLedger =
          [(.handle [1], e), (.handle [1], e'), (.handle [2], e'), (sampleSlice, e'), (sampleSlice, e'),
            (.handle [2], e), (sampleSlice, e), (sampleSlice, e)] ∧
        e.height.toNat = 1 ∧ e'.height.toNat = 2 := by
  have hstart := Host.Follows.refl nestingLedger_works
  have hzero : nestingLedger.host.reached nestingLedger.host = 0 := by decide
  obtain ⟨e, he⟩ := Host.exists_of_committedCalls
    (show Host.committedCalls (nestingLedger.host.invoke .instantiate ⟨[0x78]⟩ [0x6e] none).outcome = 1 by
      decide +kernel)
  obtain ⟨e', he'⟩ := Host.exists_of_committedCalls
    (show Host.committedCalls ((nestingLedger.host.invoke .instantiate ⟨[0x78]⟩ [0x6e] none).host.invoke .execute
      ⟨[0x78]⟩ [0x6e] none).outcome = 1 by decide +kernel)
  obtain ⟨hfirst, hone⟩ := hstart.committed he
  obtain ⟨hsecond, htwo⟩ := (hstart.invoke .instantiate ⟨[0x78]⟩ [0x6e] none).1.committed he'
  rw [hzero] at hfirst hone
  rw [hone] at hsecond htwo
  obtain ⟨hnotices, hhost⟩ := call_overtaken (l := nestingLedger) rfl (by decide) rfl he he'
  refine ⟨?_, e, e', ?_, ?_, ?_⟩
  · rw [show (transcript obey nestingCommands nestingLedger).2.host = _ from hhost]
    exact htwo
  · show notices (nestingLedger.call _ _ _ _).records ++ [] = _
    rw [hnotices]
    rfl
  · rw [hfirst]
    rfl
  · rw [hsecond]
    rfl

/-- Heights need not come in order: an observer that does nothing hears of them the wrong way round
when another one calls the host. Nor need they differ: a slice that was added twice hears of each
height twice. -/
theorem deliveries_not_increasing :
    nestingLedger.host.Works ∧ nestingLedger.watcher.Distinct ∧
      nestingLedger.host.reached (transcript obey nestingCommands nestingLedger).2.host < 2 ^ 64 ∧
      heightsOf (.handle [2]) (deliveries nestingCommands nestingLedger) = [2, 1] ∧
      heightsOf sampleSlice (deliveries nestingCommands nestingLedger) = [2, 2, 1, 1] ∧
      ¬ ∀ x, (heightsOf x (deliveries nestingCommands nestingLedger)).Pairwise (· < ·) := by
  obtain ⟨hreached, e, e', hdelivered, he, he'⟩ := deliveries_nesting
  have hheights : heightsOf (.handle [2]) (deliveries nestingCommands nestingLedger) = [2, 1] := by
    rw [hdelivered]
    simp [heightsOf, Observer.handle, sampleSlice, he, he']
  have htwice : heightsOf sampleSlice (deliveries nestingCommands nestingLedger) = [2, 2, 1, 1] := by
    rw [hdelivered]
    simp [heightsOf, Observer.handle, sampleSlice, he, he']
  refine ⟨nestingLedger_works, nestingLedger_distinct, by rw [hreached]; decide, hheights, htwice, fun h => ?_⟩
  have hpair := h (.handle [2])
  rw [hheights] at hpair
  exact absurd hpair (by decide)

theorem deliveries_ordered_nesting :
    nestingLedger.host.Works ∧ nestingLedger.watcher.Distinct ∧
      nestingLedger.host.reached (transcript obey nestingCommands nestingLedger).2.host < 2 ^ 64 ∧
      InOrder (Calls nestingLedger nestingCommands) (.handle [2]) (deliveries nestingCommands nestingLedger) ∧
      InOrder (Calls nestingLedger nestingCommands) sampleSlice (deliveries nestingCommands nestingLedger) ∧
      ((∀ y, Calls nestingLedger nestingCommands y → y = .handle [1]) ∧
        (heightsOf (.handle [1]) (deliveries nestingCommands nestingLedger)).Pairwise (· < ·)) := by
  have hbound : nestingLedger.host.reached (transcript obey nestingCommands nestingLedger).2.host < 2 ^ 64 := by
    rw [deliveries_nesting.1]
    decide
  have hcalls : ∀ y, Calls nestingLedger nestingCommands y → y = .handle [1] := by
    rintro y (⟨p, hp, hy, -⟩ | ⟨rs, hplan, -⟩)
    · obtain rfl := List.mem_singleton.1 hp
      exact hy.symm
    · simp [nestingCommands] at hplan
  exact ⟨nestingLedger_works, nestingLedger_distinct, hbound,
    (deliveries_ordered nestingLedger_works nestingLedger_distinct hbound (.handle [2])).1,
    (deliveries_ordered nestingLedger_works nestingLedger_distinct hbound sampleSlice).1, hcalls,
    (deliveries_ordered nestingLedger_works nestingLedger_distinct hbound (.handle [1])).2.1 rfl hcalls⟩

end Ledger

end CounterLedger
