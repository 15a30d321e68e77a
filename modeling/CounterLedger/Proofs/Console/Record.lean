/-
The counter as the console shows it: a record, or none yet, and what is printed for each invocation
on it. A new record may keep its creator in some other form. That form matters to what is seen only
through the first caller that can create the counter, and to that caller it does matter.
-/
import CounterLedger.Proofs.Console.Arguments
import CounterLedger.Proofs.Counter.Transition
import CounterLedger.Proofs.Transcript

namespace CounterLedger.Console

open Counter (State ExecuteMsg)

/-! ## The counter behind the console -/

/-- The creation of the counter by a caller, and what is printed for it. The record keeps the owner. -/
def create (S : Bytes) (owner : Bytes) (n : UInt64) (record : Option State) : Except Error (Bytes × Option State) :=
  if S = [] then .error (.fault .callerMissing)
  else match record with
    | some _ => .error (.fault (.alreadyInstantiated Counter.contractName))
    | none =>
      .ok (utf8 "accepted method=instantiate owner=" ++ S ++ utf8 " count=" ++ Numeral.decimal n.toNat ++ utf8 "\n",
        some ⟨⟨owner⟩, n⟩)

/-- A transition of the counter by a caller, and what is printed for it. -/
def advance (S : Bytes) (m : ExecuteMsg) (text : Bytes) (record : Option State) : Except Error (Bytes × Option State) :=
  if S = [] then .error (.fault .callerMissing)
  else match record with
    | none => .error (.fault (.notInstantiated Counter.contractName))
    | some s => (State.after ⟨S⟩ m s).map fun next => (text, some next)

/-- What is printed about the record, once there is one. -/
def report (missing : Kind) (text : State → Bytes) (record : Option State) : Except Error (Bytes × Option State) :=
  match record with
  | none => .error (.ofKind missing)
  | some s => .ok (text s, some s)

/-- An invocation on the record: what is printed and the next record, or the fault. A new record keeps
its creator in the given form. -/
def Invocation.apply (kept : Bytes → Bytes) : Invocation → Option State → Except Error (Bytes × Option State)
  | .instantiate S n => create S (kept S) (n.getD 0)
  | .increment S => advance S .increment (utf8 "accepted method=increment\n")
  | .reset S v => advance S (.reset v) (utf8 "accepted method=reset\n")
  | .count =>
    report .stateNotFound fun s => utf8 "\x7b\"count\":" ++ Numeral.decimal s.counter.toNat ++ utf8 "\x7d\n"
  | .version =>
    report .versionNotFound fun _ => Counter.contractName ++ utf8 " " ++ Counter.contractVersion ++ utf8 "\n"

/-- Serves an invocation. One that fails prints nothing and leaves the record as it is. -/
def Invocation.serve (kept : Bytes → Bytes) (i : Invocation) (record : Option State) :
    (Outcome Unit × Bytes) × Option State :=
  match i.apply kept record with
  | .ok (text, next) => ((.ok (), text), next)
  | .error e => ((.error e, []), record)

/-! ## The form of the owner -/

/-- The caller that an invocation creates the counter for, if there is none yet. -/
def Invocation.creator? : Invocation → Option Bytes
  | .instantiate S _ => if S = [] then none else some S
  | _ => none

/-- The caller of the first invocation that can create the counter. -/
def creator? (is : List Invocation) : Option Bytes := is.findSome? Invocation.creator?

theorem Invocation.creator?_eq_some_iff {i : Invocation} {S : Bytes} :
    i.creator? = some S ↔ S ≠ [] ∧ ∃ n, i = .instantiate S n := by
  cases i with
  | instantiate S' n =>
    rw [creator?]
    split_ifs with hS
    · subst hS
      simp
    · simp only [Option.some.injEq, Invocation.instantiate.injEq]
      constructor
      · rintro rfl
        exact ⟨hS, n, rfl, rfl⟩
      · rintro ⟨-, n', hS', -⟩
        exact hS'
  | _ => simp [creator?]

theorem apply_some_congr (kept kept' : Bytes → Bytes) (i : Invocation) (s : State) :
    i.apply kept (some s) = i.apply kept' (some s) := by
  cases i <;> rfl

theorem advance_owner {S text text' : Bytes} {m : ExecuteMsg} {s : State} {next : Option State}
    (h : advance S m text (some s) = .ok (text', next)) : ∃ s', next = some s' ∧ s'.owner = s.owner := by
  rw [advance] at h
  split_ifs at h
  cases hafter : State.after ⟨S⟩ m s with
  | error e =>
    rw [hafter] at h
    cases h
  | ok s' =>
    rw [hafter] at h
    cases h
    exact ⟨s', rfl, Counter.State.after_owner hafter⟩

/-- Once there is a record, there is one with the same owner from then on. -/
theorem apply_owner {kept : Bytes → Bytes} {i : Invocation} {s : State} {text : Bytes} {next : Option State}
    (h : i.apply kept (some s) = .ok (text, next)) : ∃ s', next = some s' ∧ s'.owner = s.owner := by
  cases i with
  | instantiate S n =>
    rw [Invocation.apply, create] at h
    split_ifs at h
  | increment S => exact advance_owner h
  | reset S v => exact advance_owner h
  | count =>
    cases h
    exact ⟨s, rfl, rfl⟩
  | version =>
    cases h
    exact ⟨s, rfl, rfl⟩

theorem serve_some (kept kept' : Bytes → Bytes) (i : Invocation) (s : State) :
    i.serve kept (some s) = i.serve kept' (some s) ∧
      ∃ s', (i.serve kept (some s)).2 = some s' ∧ s'.owner = s.owner := by
  unfold Invocation.serve
  rw [apply_some_congr kept kept' i s]
  cases happly : i.apply kept' (some s) with
  | error e => exact ⟨rfl, s, rfl, rfl⟩
  | ok answer => exact ⟨rfl, apply_owner happly⟩

/-- Without a record, an invocation fails that does not create one. -/
theorem apply_none {i : Invocation} (h : i.creator? = none) : ∃ e, ∀ kept, i.apply kept none = .error e := by
  have hadvance (S : Bytes) (m : ExecuteMsg) (text : Bytes) : ∃ e, advance S m text none = .error e := by
    by_cases hS : S = []
    · exact ⟨_, if_pos hS⟩
    · exact ⟨_, if_neg hS⟩
  cases i with
  | instantiate S n =>
    rw [Invocation.creator?] at h
    split_ifs at h with hS
    exact ⟨_, fun _ => if_pos hS⟩
  | increment S =>
    obtain ⟨e, he⟩ := hadvance S .increment (utf8 "accepted method=increment\n")
    exact ⟨e, fun _ => he⟩
  | reset S v =>
    obtain ⟨e, he⟩ := hadvance S (.reset v) (utf8 "accepted method=reset\n")
    exact ⟨e, fun _ => he⟩
  | count => exact ⟨_, fun _ => rfl⟩
  | version => exact ⟨_, fun _ => rfl⟩

theorem apply_creator {i : Invocation} {S : Bytes} (h : i.creator? = some S) :
    ∃ text n, ∀ kept, i.apply kept none = .ok (text, some ⟨⟨kept S⟩, n⟩) := by
  obtain ⟨hS, n, rfl⟩ := Invocation.creator?_eq_some_iff.1 h
  exact ⟨_, _, fun _ => if_neg hS⟩

theorem transcript_some (kept kept' : Bytes → Bytes) (is : List Invocation) (s : State) :
    (transcript (Invocation.serve kept) is (some s)).1 = (transcript (Invocation.serve kept') is (some s)).1 ∧
      ∃ s', (transcript (Invocation.serve kept) is (some s)).2 = some s' ∧ s'.owner = s.owner := by
  have hstep : ∀ i ∈ is, ∀ r r' : Option State, (r = r' ∧ ∃ t, r = some t ∧ t.owner = s.owner) →
      (i.serve kept r).1 = (i.serve kept' r').1 ∧
        (i.serve kept r).2 = (i.serve kept' r').2 ∧ ∃ t, (i.serve kept r).2 = some t ∧ t.owner = s.owner := by
    rintro i - r r' ⟨rfl, t, rfl, ht⟩
    obtain ⟨hserve, t', ht', howner⟩ := serve_some kept kept' i t
    exact ⟨congrArg Prod.fst hserve, congrArg Prod.snd hserve, t', ht', howner.trans ht⟩
  obtain ⟨hseen, -, howner⟩ := transcript_replies hstep ⟨rfl, s, rfl, rfl⟩
  exact ⟨hseen, howner⟩

theorem transcript_none (kept kept' : Bytes → Bytes) {is : List Invocation} (h : ∀ i ∈ is, i.creator? = none) :
    (transcript (Invocation.serve kept) is none).1 = (transcript (Invocation.serve kept') is none).1 ∧
      (transcript (Invocation.serve kept) is none).2 = none := by
  have hstep : ∀ i ∈ is, ∀ r r' : Option State, (r = none ∧ r' = none) →
      (i.serve kept r).1 = (i.serve kept' r').1 ∧ (i.serve kept r).2 = none ∧ (i.serve kept' r').2 = none := by
    rintro i hi r r' ⟨rfl, rfl⟩
    obtain ⟨e, he⟩ := apply_none (h i hi)
    simp only [Invocation.serve, he, and_self]
  obtain ⟨hseen, hnone, -⟩ := transcript_replies hstep ⟨rfl, rfl⟩
  exact ⟨hseen, hnone⟩

theorem transcript_creator (kept : Bytes → Bytes) {is : List Invocation} {S : Bytes} (h : creator? is = some S) :
    ∃ s, (transcript (Invocation.serve kept) is none).2 = some s ∧ s.owner = ⟨kept S⟩ := by
  obtain ⟨before, i, after, rfl, hi, hbefore⟩ := List.findSome?_eq_some_iff.1 h
  obtain ⟨text, n, hcreate⟩ := apply_creator hi
  -- there is no record before the creation, and the owner stays after it
  have hstart := (transcript_none kept kept hbefore).2
  obtain ⟨s, hs, howner⟩ := (transcript_some kept kept after ⟨⟨kept S⟩, n⟩).2
  refine ⟨s, ?_, howner⟩
  rw [transcript_append, hstart, transcript, Invocation.serve, hcreate]
  exact hs

/-- The form of the owner matters to what is seen only through the first creator. -/
theorem transcript_kept {kept kept' : Bytes → Bytes} {is : List Invocation}
    (h : ∀ S, creator? is = some S → kept S = kept' S) :
    (transcript (Invocation.serve kept) is none).1 = (transcript (Invocation.serve kept') is none).1 := by
  cases hcreator : creator? is with
  | none => exact (transcript_none kept kept' (List.findSome?_eq_none_iff.1 hcreator)).1
  | some S =>
    obtain ⟨before, i, after, rfl, hi, hbefore⟩ := List.findSome?_eq_some_iff.1 hcreator
    obtain ⟨text, n, hcreate⟩ := apply_creator hi
    obtain ⟨hstart, hnone⟩ := transcript_none kept kept' hbefore
    have hnone' := (transcript_none kept' kept hbefore).2
    have hrest := (transcript_some kept kept' after ⟨⟨kept S⟩, n⟩).1
    rw [transcript_append, transcript_append, hstart, hnone, hnone']
    simp only [transcript, Invocation.serve, hcreate] at hrest ⊢
    rw [hrest, h S hcreator]

/-- The owner's reset is accepted, and nobody else's. -/
theorem reset_accepted_iff (kept : Bytes → Bytes) {S : Bytes} (hS : S ≠ []) (v : UInt64) (s : State) :
    ((Invocation.reset S (some v)).serve kept (some s)).1.1 = .ok () ↔ S = s.owner.bytes := by
  rw [Invocation.serve, Invocation.apply, advance, if_neg hS, State.after]
  by_cases h : S = s.owner.bytes
  · rw [if_pos h]
    exact iff_of_true rfl h
  · rw [if_neg h]
    exact iff_of_false (fun hok => by cases hok) h

/-- If a reset by the first creator is answered as by a record that keeps it as it is, it is kept so. -/
theorem kept_eq_of_reset {kept : Bytes → Bytes} {is : List Invocation} {S : Bytes} (h : creator? is = some S)
    (hseen : (transcript (Invocation.serve kept) (is ++ [.reset S (some 0)]) none).1 =
      (transcript (Invocation.serve id) (is ++ [.reset S (some 0)]) none).1) : kept S = S := by
  have hS : S ≠ [] := by
    obtain ⟨i, -, hi⟩ := List.exists_of_findSome?_eq_some h
    exact (Invocation.creator?_eq_some_iff.1 hi).1
  -- both records accept the reset, and one of them does so for S
  obtain ⟨s, hs, howner⟩ := transcript_creator kept h
  obtain ⟨s', hs', howner'⟩ := transcript_creator id h
  rw [transcript_append, transcript_append, hs, hs'] at hseen
  obtain ⟨-, hreset⟩ := List.append_inj' hseen rfl
  have haccepted := (reset_accepted_iff id hS 0 s').2 (by rw [howner']; rfl)
  have hlast : ((Invocation.reset S (some 0)).serve kept (some s)).1 =
      ((Invocation.reset S (some 0)).serve id (some s')).1 := (List.cons.inj hreset).1
  rw [← hlast, reset_accepted_iff kept hS, howner] at haccepted
  exact haccepted.symm

end CounterLedger.Console
