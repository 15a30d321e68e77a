/-
The list of observers as an ordered set. An observer that is equal to itself is added at the end
unless it is there, and taken out without a change in the order of the others; any other observer is
added every time and never taken out. A comparison is cut off only between two values of one type
that has an equality, of which neither is equal to itself; so a call is cut off only after an earlier
one added an observer that clashes with its own.
-/
import CounterLedger.Proofs.Transcript
import CounterLedger.Watcher

namespace CounterLedger

/-! ## Equality that may be cut off -/

namespace Value

/-- Whether a value is equal to itself. Nothing in it is without an equality, and nothing differs
from itself. -/
def reflexive : Value → Bool
  | .plain _ _ => true
  | .nan _ => false
  | .closed _ _ => false
  | .vacant => true
  | .held v => v.reflexive
  | .struct _ => true
  | .field s v => s.reflexive && v.reflexive

theorem comparable_of_reflexive {v : Value} (h : v.reflexive) : v.kind.comparable = true := by
  induction v with
  | closed type id => cases h
  | field s v ihs ihv =>
    simp only [reflexive, Bool.and_eq_true] at h
    simp only [kind, Kind.comparable, ihs h.1, ihv h.2, Bool.and_self]
  | _ => rfl

/-- Two values are found equal exactly when they are the same, and equal to themselves. -/
theorem equal?_eq_true_iff (a b : Value) : a.equal? b = some true ↔ a = b ∧ a.reflexive := by
  fun_induction equal? a b with
  | case1 s a t b => simp [reflexive]
  | case2 => simp [reflexive]
  | case3 a b hkind =>
    constructor
    · intro h
      cases h
    · rintro ⟨hab, -⟩
      cases hab
      exact absurd rfl hkind
  | case4 a b hkind hc ih => rw [ih, reflexive, held.injEq]
  | case5 a b hkind hc =>
    constructor
    · intro h
      cases h
    · rintro ⟨-, hb⟩
      exact absurd (comparable_of_reflexive (show a.reflexive = true from hb)) hc
  | case6 s t => simp [reflexive]
  | case7 s a t b hs ihs iha =>
    obtain ⟨rfl, hreflexive⟩ := ihs.1 hs
    simp only [iha, reflexive, hreflexive, Bool.true_and, field.injEq, true_and]
  | case8 s a t b hs ihs =>
    have hne : ¬ (s = t ∧ s.reflexive) := fun h => hs (ihs.2 h)
    rw [reflexive, Bool.and_eq_true, field.injEq]
    constructor
    · exact fun h => absurd h hs
    · rintro ⟨⟨hst, -⟩, hs, -⟩
      exact absurd ⟨hst, hs⟩ hne
  | case9 a b h₁ h₂ h₃ h₄ h₅ =>
    constructor
    · intro h
      cases h
    · rintro ⟨rfl, ha⟩
      cases a with
      | plain s a => exact absurd rfl (h₁ s a s a rfl)
      | vacant => exact absurd rfl (h₂ rfl)
      | held a => exact absurd rfl (h₃ a a rfl)
      | struct s => exact absurd rfl (h₄ s s rfl)
      | field s a => exact absurd rfl (h₅ s a s a rfl)
      | nan => cases ha
      | closed => cases ha

/-- The comparison of two values of one type meets, in the first place in which they are not found
equal, two values of one type that has no equality. -/
inductive Clash : Value → Value → Prop where
  | held {a b : Value} : a.kind = b.kind → a.kind.comparable = false → Clash (.held a) (.held b)
  | inside {a b : Value} : a.kind = b.kind → a.kind.comparable → Clash a b → Clash (.held a) (.held b)
  | earlier {s t a b : Value} : Clash s t → Clash (.field s a) (.field t b)
  | last {s a b : Value} : s.reflexive → Clash a b → Clash (.field s a) (.field s b)

theorem equal?_eq_none_iff (a b : Value) : a.equal? b = none ↔ a.Clash b := by
  fun_induction equal? a b with
  | case3 a b hkind =>
    constructor
    · intro h
      cases h
    · rintro (⟨h, -⟩ | ⟨h, -⟩) <;> exact absurd h hkind
  | case4 a b hkind hc ih =>
    rw [ih]
    constructor
    · exact .inside (not_not.1 hkind) hc
    · rintro (⟨-, h⟩ | ⟨-, -, h⟩)
      · rw [h] at hc
        cases hc
      · exact h
  | case5 a b hkind hc => exact iff_of_true rfl (.held (not_not.1 hkind) (Bool.eq_false_iff.2 hc))
  | case7 s a t b hs ihs iha =>
    obtain ⟨rfl, hreflexive⟩ := (equal?_eq_true_iff s t).1 hs
    rw [iha]
    constructor
    · exact .last hreflexive
    · rintro (_ | _ | h | ⟨-, h⟩)
      · rw [← ihs, hs] at h
        cases h
      · exact h
  | case8 s a t b hs ihs =>
    rw [ihs]
    constructor
    · exact .earlier
    · rintro (_ | _ | h | ⟨hreflexive, -⟩)
      · exact h
      · exact absurd ((equal?_eq_true_iff s s).2 ⟨rfl, hreflexive⟩) hs
  | case9 a b h₁ h₂ h₃ h₄ h₅ =>
    constructor
    · intro h
      cases h
    · rintro (_ | _ | _ | _)
      · exact absurd rfl (h₃ _ _ rfl)
      · exact absurd rfl (h₃ _ _ rfl)
      · exact absurd rfl (h₅ _ _ _ _ rfl)
      · exact absurd rfl (h₅ _ _ _ _ rfl)
  | _ => exact ⟨fun h => (by cases h), fun h => (by cases h)⟩

/-- Only values that are not equal to themselves clash. -/
theorem Clash.not_reflexive {a b : Value} (h : a.Clash b) : a.reflexive = false ∧ b.reflexive = false := by
  have hclosed {v : Value} (hv : v.kind.comparable = false) : v.reflexive = false := by
    rw [Bool.eq_false_iff]
    intro hr
    rw [comparable_of_reflexive hr] at hv
    cases hv
  induction h with
  | @held a b hkind hc =>
    have hb : b.kind.comparable = false := by rw [← hkind, hc]
    exact ⟨hclosed (v := a) hc, hclosed (v := b) hb⟩
  | inside _ _ _ ih => exact ih
  | earlier _ ih => simp [reflexive, ih.1, ih.2]
  | last _ _ ih => simp [reflexive, ih.1, ih.2]

/-- What clashes with any other value clashes with itself. -/
theorem Clash.self {a b : Value} (h : a.Clash b) : b.Clash b := by
  induction h with
  | @held a b hkind hc => exact .held rfl (hkind ▸ hc)
  | inside hkind hc _ ih => exact .inside rfl (hkind ▸ hc) ih
  | earlier _ ih => exact .earlier ih
  | last hs _ ih => exact .last hs ih

end Value

namespace Observer

/-- Whether an observer is equal to itself. -/
def reflexive : Observer → Bool
  | .missing => true
  | .value v => v.reflexive

/-- The comparison of two observers is cut off: they are of one type that has an equality, and
clash. -/
def Clash : Observer → Observer → Prop
  | .value a, .value b => a.kind = b.kind ∧ a.kind.comparable ∧ a.Clash b
  | _, _ => False

theorem same?_eq_true_iff (a b : Observer) : a.same? b = some true ↔ a = b ∧ a.reflexive := by
  cases a with
  | missing => cases b <;> simp [same?, reflexive]
  | value v =>
    cases b with
    | missing => simp [same?]
    | value w =>
      rw [same?, reflexive, value.injEq]
      split
      · exact Value.equal?_eq_true_iff v w
      · next hkind =>
        constructor
        · intro h
          cases h
        · rintro ⟨rfl, hv⟩
          exact absurd ⟨rfl, Value.comparable_of_reflexive hv⟩ hkind

theorem same?_eq_none_iff (a b : Observer) : a.same? b = none ↔ a.Clash b := by
  cases a with
  | missing => cases b <;> simp [same?, Clash]
  | value v =>
    cases b with
    | missing => simp [same?, Clash]
    | value w =>
      rw [same?, Clash]
      split
      · next hkind =>
        rw [Value.equal?_eq_none_iff]
        exact ⟨fun h => ⟨hkind.1, hkind.2, h⟩, fun h => h.2.2⟩
      · next hkind =>
        constructor
        · intro h
          cases h
        · rintro ⟨hkinds, hc, -⟩
          exact absurd ⟨hkinds, hc⟩ hkind

theorem Clash.not_reflexive {a b : Observer} (h : a.Clash b) : a.reflexive = false ∧ b.reflexive = false := by
  cases a <;> cases b <;> simp only [Clash] at h
  exact h.2.2.not_reflexive

/-- An observer that clashes with neither is compared by what it is, if it is equal to itself. -/
theorem same?_eq_some {a b : Observer} (h : ¬ a.Clash b) : a.same? b = some (b.reflexive && decide (a = b)) := by
  have htrue := same?_eq_true_iff a b
  have hnone := same?_eq_none_iff a b
  cases hs : a.same? b with
  | none => exact absurd (hnone.1 hs) h
  | some r =>
    rw [hs] at htrue
    cases r with
    | true =>
      obtain ⟨rfl, ha⟩ := htrue.1 rfl
      simp [ha]
    | false =>
      have hne : ¬ (a = b ∧ a.reflexive) := fun heq => by cases htrue.2 heq
      by_cases hab : a = b
      · subst hab
        simpa using hne
      · simp [hab]

/-- What clashes with any other observer clashes with itself. -/
theorem Clash.self {a b : Observer} (h : a.Clash b) : b.Clash b := by
  cases a <;> cases b <;> simp only [Clash] at h
  obtain ⟨hkind, hc, hclash⟩ := h
  exact ⟨rfl, hkind ▸ hc, hclash.self⟩

/-- Whether an observer can be told of events and compared with any other one: it is not missing, and
its comparison with itself is not cut off. -/
def regular : Observer → Bool
  | .missing => false
  | .value v => ((value v).same? (.value v)).isSome

theorem regular_value_iff (v : Value) : (value v).regular ↔ ¬ (value v).Clash (.value v) := by
  rw [regular, Option.isSome_iff_ne_none, ne_eq, same?_eq_none_iff]

@[simp]
theorem regular_handle (id : Bytes) : (handle id).regular = true := by
  refine (regular_value_iff _).2 ?_
  rintro ⟨-, -, hclash⟩
  cases hclash

@[simp]
theorem regular_closed (type id : Bytes) : (value (.closed type id)).regular = true := by
  refine (regular_value_iff _).2 ?_
  rintro ⟨-, hc, -⟩
  cases hc

@[simp]
theorem reflexive_handle (id : Bytes) : (handle id).reflexive = true := rfl

theorem not_clash_of_regular {o : Observer} (h : o.regular) (x : Observer) : ¬ x.Clash o := by
  intro hclash
  cases o with
  | missing => cases h
  | value v => exact (regular_value_iff v).1 h hclash.self

end Observer

namespace Watcher

/-- One of the observers clashes with the given one. -/
def Clashes (w : Watcher) (o : Observer) : Prop := ∃ x ∈ w, x.Clash o

/-- The list with an observer at its end, unless the observer is equal to itself and there already. -/
def joined (w : Watcher) (o : Observer) : Watcher := if o.reflexive ∧ o ∈ w then w else w ++ [o]

/-- The list without an observer, if that one is equal to itself. -/
def left (w : Watcher) (o : Observer) : Watcher := if o.reflexive then w.erase o else w

/-- Observers that are equal to themselves occur at most once. -/
def Distinct (w : Watcher) : Prop := (w.filter Observer.reflexive).Nodup

variable {w : Watcher} {o : Observer}

theorem clashes_cons (x : Observer) : Clashes (x :: w) o ↔ x.Clash o ∨ w.Clashes o := by
  simp [Clashes]

theorem position?_eq_none_iff : w.position? o = none ↔ w.Clashes o := by
  induction w with
  | nil => simp [position?, Clashes]
  | cons x rest ih =>
    rw [position?, clashes_cons, ← Observer.same?_eq_none_iff]
    cases hs : x.same? o with
    | none => simp
    | some r =>
      cases r with
      | false => simp [ih]
      | true =>
        -- what is found is equal to itself, so that nothing behind it clashes
        obtain ⟨rfl, hx⟩ := (Observer.same?_eq_true_iff x o).1 hs
        have hrest : ¬ Clashes rest x := by
          rintro ⟨y, -, hy⟩
          rw [hy.not_reflexive.2] at hx
          cases hx
        simp [hrest]

theorem position?_eq_some (h : ¬ w.Clashes o) :
    w.position? o = some (if o.reflexive then w.idxOf? o else none) := by
  induction w with
  | nil => simp [position?]
  | cons x rest ih =>
    rw [clashes_cons, not_or] at h
    rw [position?, Observer.same?_eq_some h.1, ih h.2, List.idxOf?_cons]
    cases o.reflexive with
    | false => simp
    | true => by_cases hx : x = o <;> simp [hx]

theorem add_eq_some (h : ¬ w.Clashes o) : w.add o = some (w.joined o) := by
  rw [add, position?_eq_some h, joined]
  cases hc : o.reflexive with
  | false => simp
  | true =>
    by_cases ho : o ∈ w
    · obtain ⟨i, hi⟩ := Option.ne_none_iff_exists'.1 (mt List.idxOf?_eq_none_iff.1 (not_not.2 ho))
      simp [hi, ho]
    · simp [List.idxOf?_eq_none_iff.2 ho, ho]

theorem remove_eq_some (h : ¬ w.Clashes o) : w.remove o = some (w.left o) := by
  rw [remove, position?_eq_some h, left]
  cases o.reflexive with
  | false => simp
  | true =>
    rw [if_pos rfl, if_pos rfl, List.erase_eq_eraseIdx]
    cases w.idxOf? o <;> rfl

theorem add_eq_none_iff : w.add o = none ↔ w.Clashes o := by
  by_cases h : w.Clashes o
  · simp [add, position?_eq_none_iff.2 h, h]
  · simp [add_eq_some h, h]

theorem eq_joined {w' : Watcher} (h : w.add o = some w') : w' = w.joined o := by
  by_cases hc : w.Clashes o
  · rw [add_eq_none_iff.2 hc] at h
    cases h
  · rw [add_eq_some hc] at h
    exact (Option.some.inj h).symm

theorem remove_eq_none_iff : w.remove o = none ↔ w.Clashes o := by
  by_cases h : w.Clashes o
  · simp [remove, position?_eq_none_iff.2 h, h]
  · simp [remove_eq_some h, h]

theorem eq_left {w' : Watcher} (h : w.remove o = some w') : w' = w.left o := by
  by_cases hc : w.Clashes o
  · rw [remove_eq_none_iff.2 hc] at h
    cases h
  · rw [remove_eq_some hc] at h
    exact (Option.some.inj h).symm

theorem not_clashes_of_regular (w : Watcher) {o : Observer} (ho : o.regular) : ¬ w.Clashes o := by
  rintro ⟨x, -, hx⟩
  exact Observer.not_clash_of_regular ho x hx

theorem mem_joined {x : Observer} (h : x ∈ w.joined o) : x ∈ w ∨ x = o := by
  unfold joined at h
  split at h
  · exact .inl h
  · simpa using h

theorem mem_of_mem_left {x : Observer} (h : x ∈ w.left o) : x ∈ w := by
  unfold left at h
  split at h
  · exact List.mem_of_mem_erase h
  · exact h

theorem Distinct.joined (h : w.Distinct) (o : Observer) : (w.joined o).Distinct := by
  unfold Watcher.joined
  split
  · exact h
  · next hnew =>
    unfold Distinct at h ⊢
    rw [List.filter_append]
    cases hc : o.reflexive with
    | false => simpa [hc] using h
    | true =>
      have ho : o ∉ w := fun ho => hnew ⟨hc, ho⟩
      rw [List.filter_singleton, hc]
      refine List.nodup_append.2 ⟨h, by simp, ?_⟩
      intro a ha b hb hab
      obtain rfl := List.mem_singleton.1 hb
      exact ho (hab ▸ List.mem_of_mem_filter ha)

theorem Distinct.left (h : w.Distinct) (o : Observer) : (w.left o).Distinct := by
  unfold Watcher.left
  split
  · exact h.sublist (List.erase_sublist.filter _)
  · exact h

/-- Among those that clash with an observer is one that was added, or was there before. -/
theorem clashes_joined (x : Observer) : (w.joined x).Clashes o ↔ w.Clashes o ∨ x.Clash o := by
  unfold joined
  split
  · next hold =>
    have hx : ¬ x.Clash o := fun hx => by simp [hx.not_reflexive.1] at hold
    simp [hx]
  · simp [Clashes, or_and_right, exists_or]

/-- Only an observer that is equal to itself is taken out, so those that clash stay. -/
theorem clashes_left (x : Observer) : (w.left x).Clashes o ↔ w.Clashes o := by
  unfold left
  split
  · next hc =>
    refine exists_congr fun y => and_congr_left fun hy => List.mem_erase_of_ne ?_
    rintro rfl
    simp [hy.not_reflexive.1] at hc
  · rfl

end Watcher

/-! ## Calls that are cut off -/

/-- A call that changes who watches. -/
inductive Registration where
  | add (o : Observer)
  | remove (o : Observer)

namespace Registration

/-- The observer that a call is about. -/
def observer : Registration → Observer
  | .add o => o
  | .remove o => o

/-- The call adds an observer that clashes with the one that a later call is about. -/
def Clashes : Registration → Registration → Prop
  | .add o, later => o.Clash later.observer
  | .remove _, _ => False

/-- The list after a call; none when it is cut off. -/
def apply (w : Watcher) : Registration → Option Watcher
  | .add o => w.add o
  | .remove o => w.remove o

/-- Serves a call: whether it returned, and the list that it left. -/
def serve (c : Registration) (w : Watcher) : Bool × Watcher :=
  match c.apply w with
  | some w' => (true, w')
  | none => (false, w)

variable {c d : Registration} {w : Watcher}

theorem serve_returns : (c.serve w).1 = true ↔ ¬ w.Clashes c.observer := by
  unfold serve
  cases c with
  | add o =>
    rw [apply, observer, ← Watcher.add_eq_none_iff]
    cases w.add o <;> simp
  | remove o =>
    rw [apply, observer, ← Watcher.remove_eq_none_iff]
    cases w.remove o <;> simp

/-- After a call that returned, another one meets the clashes that it met before, and those with the
observer that was added. -/
theorem serve_clashes (h : ¬ w.Clashes c.observer) :
    (c.serve w).2.Clashes d.observer ↔ w.Clashes d.observer ∨ c.Clashes d := by
  unfold serve
  cases c with
  | add o =>
    rw [observer] at h
    rw [apply, Watcher.add_eq_some h]
    exact Watcher.clashes_joined o
  | remove o =>
    rw [observer] at h
    rw [apply, Watcher.remove_eq_some h]
    simp [Watcher.clashes_left, Clashes]

/-- From a list of observers, no call is cut off exactly if none is about an observer that clashes
with one in the list, be it there from the start or by an earlier call. -/
theorem served_iff (calls : List Registration) (w : Watcher) :
    (∀ returned ∈ (transcript serve calls w).1, returned = true) ↔
      (∀ c ∈ calls, ¬ w.Clashes c.observer) ∧ calls.Pairwise fun earlier later => ¬ earlier.Clashes later := by
  induction calls generalizing w with
  | nil => simp [transcript]
  | cons c rest ih =>
    rw [transcript, List.forall_mem_cons, serve_returns, ih, List.forall_mem_cons, List.pairwise_cons]
    by_cases hc : w.Clashes c.observer
    · simp [hc]
    · constructor
      · rintro ⟨-, hlater, hrest⟩
        refine ⟨⟨hc, fun d hd hw => ?_⟩, fun d hd hboth => ?_, hrest⟩
        · exact hlater d hd ((serve_clashes hc).2 (.inl hw))
        · exact hlater d hd ((serve_clashes hc).2 (.inr hboth))
      · rintro ⟨⟨-, hstart⟩, hnew, hrest⟩
        refine ⟨hc, fun d hd hclash => ?_, hrest⟩
        rcases (serve_clashes hc).1 hclash with hw | hboth
        · exact hstart d hd hw
        · exact hnew d hd hboth

/-- From an empty list, no call is cut off exactly if none adds an observer that clashes with the one
of a later call; and a comparison is cut off exactly between two observers that clash. -/
theorem returns_iff (calls : List Registration) (a b : Observer) :
    ((∀ returned ∈ (transcript serve calls []).1, returned = true) ↔
      calls.Pairwise fun earlier later => ¬ earlier.Clashes later) ∧
    (a.same? b = none ↔ a.Clash b) := by
  refine ⟨?_, a.same?_eq_none_iff b⟩
  rw [served_iff]
  simp [Watcher.Clashes]

/-- A struct with a single field, which takes any value. -/
def boxed (v : Value) : Observer := .value (.field (.struct [98]) (.held v))

-- a slice and a map are of different types, and so are a slice and a text
example : (transcript serve [.add (boxed (.closed [115] [97])), .add (boxed (.closed [109] [98])),
    .remove (boxed (.plain [116] [97]))] []).1 = [true, true, true] := by decide

/-- Of two boxes that hold slices of one type, the second cannot be added. -/
theorem second_box_cut_off :
    (boxed (.closed [115] [97])).same? (boxed (.closed [115] [98])) = none ∧
      (transcript serve [.add (boxed (.closed [115] [97])), .add (boxed (.closed [115] [98]))] []).1 =
        [true, false] := by
  decide

end Registration

end CounterLedger
