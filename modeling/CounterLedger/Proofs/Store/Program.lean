/-
Programs on a store: which keys a program may use, which ones it does use in a run, and how the
run of a composed program is made of the runs of its parts.
-/
import CounterLedger.Store.Namespace

namespace CounterLedger

variable {α β σ : Type}

/-! ## The keys of a program -/

/-- Every key that the computation may read is one of `keys`. -/
def Reading.Uses (keys : Bytes → Prop) : Reading α → Prop
  | .done _ => True
  | .get k next => keys k ∧ ∀ v, (next v).Uses keys

/-- Every key that the program may read or write is one of `keys`. -/
def Program.Uses (keys : Bytes → Prop) : Program α → Prop
  | .done _ => True
  | .get k next => keys k ∧ ∀ v, (next v).Uses keys
  | .set k _ next => keys k ∧ ∀ r, (next r).Uses keys
  | .delete k next => keys k ∧ ∀ r, (next r).Uses keys
  | .log _ next => next.Uses keys

theorem Program.uses_true (p : Program α) : p.Uses fun _ => True := by
  induction p with
  | done o => trivial
  | get k next ih => exact ⟨trivial, ih⟩
  | set k v next ih => exact ⟨trivial, ih⟩
  | delete k next ih => exact ⟨trivial, ih⟩
  | log e next ih => exact ih

theorem Reading.uses_toProgram {keys : Bytes → Prop} {p : Reading α} (h : p.Uses keys) :
    p.toProgram.Uses keys := by
  induction p with
  | done o => trivial
  | get k next ih => exact ⟨h.1, fun v => ih v (h.2 v)⟩

theorem Reading.uses_within {keys : Bytes → Prop} {p : Reading α} (c : Context) (h : p.Uses keys) :
    (p.within c).Uses keys := by
  induction p with
  | done o => trivial
  | get k next ih => exact ⟨h.1, fun v => ih v (h.2 v)⟩

theorem Reading.uses_bind {keys : Bytes → Prop} {p : Reading α} {f : α → Reading β}
    (hp : p.Uses keys) (hf : ∀ a, (f a).Uses keys) : (p >>= f).Uses keys := by
  show (p.bind f).Uses keys
  induction p with
  | done o =>
    cases o with
    | ok a => exact hf a
    | error e => trivial
    | abort r => trivial
  | get k next ih => exact ⟨hp.1, fun v => ih v (hp.2 v)⟩

theorem Program.uses_within {keys : Bytes → Prop} {p : Program α} (c : Context) (h : p.Uses keys) :
    (p.within c).Uses keys := by
  induction p with
  | done o => trivial
  | get k next ih => exact ⟨h.1, fun v => ih v (h.2 v)⟩
  | set k v next ih => exact ⟨h.1, fun r => ih r (h.2 r)⟩
  | delete k next ih => exact ⟨h.1, fun r => ih r (h.2 r)⟩
  | log e next ih => exact ih h

theorem Program.uses_bind {keys : Bytes → Prop} {p : Program α} {f : α → Program β}
    (hp : p.Uses keys) (hf : ∀ a, (f a).Uses keys) : (p >>= f).Uses keys := by
  show (p.bind f).Uses keys
  induction p with
  | done o =>
    cases o with
    | ok a => exact hf a
    | error e => trivial
    | abort r => trivial
  | get k next ih => exact ⟨hp.1, fun v => ih v (hp.2 v)⟩
  | set k v next ih => exact ⟨hp.1, fun r => ih r (hp.2 r)⟩
  | delete k next ih => exact ⟨hp.1, fun r => ih r (hp.2 r)⟩
  | log e next ih => exact ih hp

theorem Program.uses_write {keys : Bytes → Prop} {k : Bytes} (h : keys k) (v : Payload) :
    (Program.write k v).Uses keys :=
  ⟨h, fun _ => trivial⟩

theorem Program.Uses.mono {keys keys' : Bytes → Prop} (hk : ∀ k, keys k → keys' k) {p : Program α}
    (h : p.Uses keys) : p.Uses keys' := by
  induction p with
  | done o => trivial
  | get k next ih => exact ⟨hk k h.1, fun v => ih v (h.2 v)⟩
  | set k v next ih => exact ⟨hk k h.1, fun r => ih r (h.2 r)⟩
  | delete k next ih => exact ⟨hk k h.1, fun r => ih r (h.2 r)⟩
  | log e next ih => exact ih h

/-- The keys that the program reads or writes when it is run in this state, in order. -/
def Program.keysUsed (s : Store σ) : Program α → σ → List Bytes
  | .done _, _ => []
  | .get k next, st => k :: (next (s.get k st).1).keysUsed s (s.get k st).2
  | .set k v next, st => k :: (next (s.set k v st).1).keysUsed s (s.set k v st).2
  | .delete k next, st => k :: (next (s.delete k st).1).keysUsed s (s.delete k st).2
  | .log _ next, st => next.keysUsed s st

theorem Program.Uses.keysUsed {keys : Bytes → Prop} {p : Program α} (h : p.Uses keys) (s : Store σ) (st : σ) :
    ∀ k ∈ p.keysUsed s st, keys k := by
  induction p generalizing st with
  | done o => intro k hk; cases hk
  | get k next ih =>
    intro k' hk'
    rcases List.mem_cons.1 hk' with rfl | hk'
    · exact h.1
    · exact ih _ (h.2 _) _ k' hk'
  | set k v next ih =>
    intro k' hk'
    rcases List.mem_cons.1 hk' with rfl | hk'
    · exact h.1
    · exact ih _ (h.2 _) _ k' hk'
  | delete k next ih =>
    intro k' hk'
    rcases List.mem_cons.1 hk' with rfl | hk'
    · exact h.1
    · exact ih _ (h.2 _) _ k' hk'
  | log e next ih => exact ih h st

/-! ## Runs of composed programs -/

/-- What a run goes on with after its first part: the next program when there is a result. -/
def Program.Ran.andThen (s : Store σ) (r : Ran α σ) (f : α → Program β) : Ran β σ :=
  match r.outcome with
  | .ok a => { (f a).run s r.state with logs := r.logs ++ ((f a).run s r.state).logs }
  | .error e => { outcome := .error e, state := r.state, logs := r.logs }
  | .abort reason => { outcome := .abort reason, state := r.state, logs := r.logs }

theorem Program.run_bind (s : Store σ) (p : Program α) (f : α → Program β) (st : σ) :
    (p >>= f).run s st = (p.run s st).andThen s f := by
  show (p.bind f).run s st = _
  induction p generalizing st with
  | done o => cases o <;> rfl
  | get k next ih => exact ih _ _
  | set k v next ih => exact ih _ _
  | delete k next ih => exact ih _ _
  | log e next ih =>
    have h := ih st
    simp only [Program.bind, Program.run, h, Ran.andThen]
    cases (next.run s st).outcome <;> rfl

theorem Program.run_bind_of_error {s : Store σ} {p : Program α} {f : α → Program β} {st : σ} {e : Error}
    (h : (p.run s st).outcome = .error e) :
    ((p >>= f).run s st).outcome = .error e ∧ ((p >>= f).run s st).state = (p.run s st).state := by
  rw [Program.run_bind, Program.Ran.andThen, h]
  exact ⟨rfl, rfl⟩

theorem Program.run_bind_of_ok {s : Store σ} {p : Program α} {f : α → Program β} {st : σ} {a : α}
    (h : (p.run s st).outcome = .ok a) :
    ((p >>= f).run s st).outcome = ((f a).run s (p.run s st).state).outcome ∧
      ((p >>= f).run s st).state = ((f a).run s (p.run s st).state).state := by
  rw [Program.run_bind, Program.Ran.andThen, h]
  exact ⟨rfl, rfl⟩

theorem Program.run_within (s : Store σ) (c : Context) (p : Program α) (st : σ) :
    (p.within c).run s st =
      { p.run s st with outcome := (p.run s st).outcome.mapError (.within c) } := by
  induction p generalizing st with
  | done o => rfl
  | get k next ih => exact ih _ _
  | set k v next ih => exact ih _ _
  | delete k next ih => exact ih _ _
  | log e next ih => simp only [Program.within, Program.run, ih]

theorem Reading.run_within (s : Source σ) (c : Context) (p : Reading α) (st : σ) :
    (p.within c).run s st = ((p.run s st).1.mapError (.within c), (p.run s st).2) := by
  induction p generalizing st with
  | done o => rfl
  | get k next ih => exact ih _ _

theorem Reading.run_bind (s : Source σ) (p : Reading α) (f : α → Reading β) (st : σ) :
    (p >>= f).run s st =
      match (p.run s st).1 with
      | .ok a => (f a).run s (p.run s st).2
      | .error e => (.error e, (p.run s st).2)
      | .abort reason => (.abort reason, (p.run s st).2) := by
  show (p.bind f).run s st = _
  induction p generalizing st with
  | done o => cases o <;> rfl
  | get k next ih => exact ih _ _

theorem Reading.run_toProgram (s : Store σ) (p : Reading α) (st : σ) :
    p.toProgram.run s st = { outcome := (p.run s.toSource st).1, state := (p.run s.toSource st).2 } := by
  induction p generalizing st with
  | done o => rfl
  | get k next ih => exact ih _ _

/-! ## Namespaces -/

/-- The store as it is seen from within a namespace. -/
def Store.scoped (space : Bytes) (s : Store σ) : Store σ where
  get k := s.get (Namespace.key space k)
  set k := s.set (Namespace.key space k)
  delete k := s.delete (Namespace.key space k)

theorem Reading.run_scoped (space : Bytes) (s : Store σ) (p : Reading α) (st : σ) :
    (p.scoped space).run s.toSource st = p.run (s.scoped space).toSource st := by
  induction p generalizing st with
  | done o => rfl
  | get k next ih => exact ih _ _

/-- A program moved into a namespace runs like the program on the store seen from there. -/
theorem Program.run_scoped (space : Bytes) (s : Store σ) (p : Program α) (st : σ) :
    (p.scoped space).run s st = p.run (s.scoped space) st := by
  induction p generalizing st with
  | done o => rfl
  | get k next ih => exact ih _ _
  | set k v next ih => exact ih _ _
  | delete k next ih => exact ih _ _
  | log e next ih => simp only [Program.scoped, Program.run, ih]

theorem Program.keysUsed_scoped (space : Bytes) (s : Store σ) (p : Program α) (st : σ) :
    (p.scoped space).keysUsed s st = (p.keysUsed (s.scoped space) st).map (Namespace.key space) := by
  induction p generalizing st with
  | done o => rfl
  | get k next ih => exact congrArg _ (ih _ _)
  | set k v next ih => exact congrArg _ (ih _ _)
  | delete k next ih => exact congrArg _ (ih _ _)
  | log e next ih => exact ih st

theorem Program.Uses.scoped {keys : Bytes → Prop} {space : Bytes} {p : Program α}
    (h : p.Uses fun k => keys (Namespace.key space k)) : (p.scoped space).Uses keys := by
  induction p with
  | done o => trivial
  | get k next ih => exact ⟨h.1, fun v => ih v (h.2 v)⟩
  | set k v next ih => exact ⟨h.1, fun r => ih r (h.2 r)⟩
  | delete k next ih => exact ⟨h.1, fun r => ih r (h.2 r)⟩
  | log e next ih => exact ih h

theorem Program.uses_scoped {keys : Bytes → Prop} {space : Bytes}
    (h : ∀ k, keys (Namespace.key space k)) (p : Program α) : (p.scoped space).Uses keys :=
  (p.uses_true.mono fun k _ => h k).scoped

theorem Reading.uses_scoped {keys : Bytes → Prop} {space : Bytes}
    (h : ∀ k, keys (Namespace.key space k)) (p : Reading α) : (p.scoped space).Uses keys := by
  induction p with
  | done o => trivial
  | get k next ih => exact ⟨h k, ih⟩

end CounterLedger
