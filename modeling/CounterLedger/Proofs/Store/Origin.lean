/-
Where errors come from. A program that never makes an error of some kind by itself can still end in
one: a store may report it, and the program hands it on. So it does only when the store has reported
such an error in the same run.
-/
import CounterLedger.Proofs.Store.Program

namespace CounterLedger

variable {α β σ : Type}

/-! ## Reported errors -/

/-- The error of a result, if it is one. -/
def Error.reported : Except Error α → List Error
  | .ok _ => []
  | .error e => [e]

/-- The errors that the store reports in a run from this state, in order. -/
def Program.reported (s : Store σ) : Program α → σ → List Error
  | .done _, _ => []
  | .get k next, st => Error.reported (s.get k st).1 ++ (next (s.get k st).1).reported s (s.get k st).2
  | .set k v next, st => Error.reported (s.set k v st).1 ++ (next (s.set k v st).1).reported s (s.set k v st).2
  | .delete k next, st =>
    Error.reported (s.delete k st).1 ++ (next (s.delete k st).1).reported s (s.delete k st).2
  | .log _ next, st => next.reported s st

/-- The result is no error of the kind. -/
def Lacks (kind : Kind) (r : Except Error α) : Prop := ∀ e, r = .error e → e.kind ≠ kind

/-- The program ends in no error of the kind, as long as the store reports none. -/
def Program.Avoids (kind : Kind) : Program α → Prop
  | .done o => ∀ e, o = .error e → e.kind ≠ kind
  | .get _ next => ∀ r, Lacks kind r → (next r).Avoids kind
  | .set _ _ next => ∀ r, Lacks kind r → (next r).Avoids kind
  | .delete _ next => ∀ r, Lacks kind r → (next r).Avoids kind
  | .log _ next => next.Avoids kind

theorem mem_reported_or_lacks (kind : Kind) (r : Except Error α) :
    (∃ e ∈ Error.reported r, e.kind = kind) ∨ Lacks kind r := by
  cases r with
  | ok a => exact .inr fun e h => by cases h
  | error e =>
    by_cases he : e.kind = kind
    · exact .inl ⟨e, List.mem_singleton_self e, he⟩
    · exact .inr fun e' h => by cases h; exact he

/-- An error of a kind that the program avoids is one that the store has reported. -/
theorem Program.Avoids.reported {kind : Kind} {p : Program α} (h : p.Avoids kind) (s : Store σ) (st : σ) {e : Error}
    (he : (p.run s st).outcome = .error e) (hk : e.kind = kind) : ∃ e' ∈ p.reported s st, e'.kind = kind := by
  -- either this operation reports such an error, or the program goes on without one
  have step {γ : Type} {r : Except Error γ} {rest : List Error} (hrest : Lacks kind r → ∃ e' ∈ rest, e'.kind = kind) :
      ∃ e' ∈ Error.reported r ++ rest, e'.kind = kind := by
    rcases mem_reported_or_lacks kind r with ⟨e', hmem, hk'⟩ | hlacks
    · exact ⟨e', List.mem_append_left _ hmem, hk'⟩
    · obtain ⟨e', hmem, hk'⟩ := hrest hlacks
      exact ⟨e', List.mem_append_right _ hmem, hk'⟩
  induction p generalizing st with
  | done o => exact absurd hk (h e he)
  | get k next ih => exact step fun hlacks => ih _ (h _ hlacks) _ he
  | set k v next ih => exact step fun hlacks => ih _ (h _ hlacks) _ he
  | delete k next ih => exact step fun hlacks => ih _ (h _ hlacks) _ he
  | log entry next ih => exact ih h st he

/-! ## Programs that avoid a kind -/

section Avoids

variable {kind : Kind}

theorem Program.avoids_pure (a : α) : (pure a : Program α).Avoids kind := by
  intro e h
  cases h

theorem Program.avoids_fail {e : Error} (h : e.kind ≠ kind) : (Program.fail e : Program α).Avoids kind := by
  intro e' he
  cases he
  exact h

theorem Program.avoids_ofExcept {r : Except Error α} (h : Lacks kind r) : (Program.ofExcept r).Avoids kind := by
  intro e he
  cases r with
  | ok a => cases he
  | error e' =>
    cases he
    exact h e rfl

theorem Program.avoids_bind {p : Program α} {f : α → Program β} (hp : p.Avoids kind) (hf : ∀ a, (f a).Avoids kind) :
    (p >>= f).Avoids kind := by
  show (p.bind f).Avoids kind
  induction p with
  | done o =>
    cases o with
    | ok a => exact hf a
    | error e =>
      intro e' he
      cases he
      exact hp e rfl
    | abort r => intro e' he; cases he
  | get k next ih => exact fun r hr => ih r (hp r hr)
  | set k v next ih => exact fun r hr => ih r (hp r hr)
  | delete k next ih => exact fun r hr => ih r (hp r hr)
  | log entry next ih => exact ih hp

/-- A context keeps the kind. -/
theorem Program.avoids_within (c : Context) {p : Program α} (h : p.Avoids kind) : (p.within c).Avoids kind := by
  induction p with
  | done o =>
    cases o with
    | ok a => intro e he; cases he
    | error e =>
      intro e' he
      cases he
      exact h e rfl
    | abort r => intro e he; cases he
  | get k next ih => exact fun r hr => ih r (h r hr)
  | set k v next ih => exact fun r hr => ih r (h r hr)
  | delete k next ih => exact fun r hr => ih r (h r hr)
  | log entry next ih => exact ih h

theorem Program.avoids_write (k : Bytes) (v : Payload) : (Program.write k v).Avoids kind :=
  fun _ hr => avoids_ofExcept hr

theorem Program.avoids_note (entry : Log.Entry) : (Program.note entry).Avoids kind := by
  intro e h
  cases h

theorem Reading.avoids_read (k : Bytes) : (Reading.read k).toProgram.Avoids kind :=
  fun _ hr => Program.avoids_ofExcept hr

theorem Reading.toProgram_bind (p : Reading α) (f : α → Reading β) :
    (p >>= f).toProgram = p.toProgram >>= fun a => (f a).toProgram := by
  show (p.bind f).toProgram = p.toProgram.bind fun a => (f a).toProgram
  induction p with
  | done o => cases o <;> rfl
  | get k next ih => exact congrArg (Program.get k) (funext ih)

theorem Reading.toProgram_within (c : Context) (p : Reading α) : (p.within c).toProgram = p.toProgram.within c := by
  induction p with
  | done o => rfl
  | get k next ih => exact congrArg (Program.get k) (funext ih)

end Avoids

end CounterLedger
