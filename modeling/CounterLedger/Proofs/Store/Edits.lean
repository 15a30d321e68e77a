/-
Stores that may fail, and what is edited in them. A fallible store may refuse any operation at any
time; what it refuses changes nothing. A program on an overlay of such a store leaves the store
alone and shows in the overlay exactly its edits, the last of a key counting. A commit goes through
the changes in order and stops at the first that the store refuses, so that what it accepted before
stays.
-/
import CounterLedger.Proofs.Store.Memory
import Mathlib.Tactic.SplitIfs

namespace CounterLedger

variable {α β σ : Type}

/-! ## Stores that may fail -/

/-- The store has the contents at all times, and every operation either goes by them or is refused
and leaves them as they are. -/
structure Store.Fallible (s : Store σ) (contents : σ → Memory) : Prop where
  read : ∀ k st, contents (s.get k st).2 = contents st
  answer : ∀ k st v, (s.get k st).1 = .ok v → v = contents st k
  accepted : ∀ k c st, (s.change k c st).1 = .ok () →
    contents (s.change k c st).2 = (contents st).put k c.read
  refused : ∀ k c st e, (s.change k c st).1 = .error e → contents (s.change k c st).2 = contents st

theorem Store.Fallible.set_ok {s : Store σ} {contents : σ → Memory} (hs : s.Fallible contents) {k : Bytes}
    {v : Payload} {st : σ} (h : (s.set k v st).1 = .ok ()) : contents (s.set k v st).2 = (contents st).put k v :=
  hs.accepted k (.value v) st h

theorem Store.Fallible.set_error {s : Store σ} {contents : σ → Memory} (hs : s.Fallible contents) {k : Bytes}
    {v : Payload} {st : σ} {e : Error} (h : (s.set k v st).1 = .error e) : contents (s.set k v st).2 = contents st :=
  hs.refused k (.value v) st e h

/-- What the keys of a plain store hold, whether or not it can be read at the moment. -/
def PlainStore.contents (s : PlainStore) : Memory := fun k => (s.values.get? k).getD none

theorem PlainStore.contents_insert (s : PlainStore) (k : Bytes) (v : Payload) (f : Faults) :
    PlainStore.contents { values := s.values.insert k v, faults := f } = s.contents.put k v := by
  funext k'
  unfold PlainStore.contents Memory.put
  rw [Table.get?_insert]
  by_cases h : k = k'
  · simp [h]
  · simp [h, Ne.symm h]

theorem PlainStore.contents_erase (s : PlainStore) (k : Bytes) :
    PlainStore.contents { s with values := s.values.erase k } = s.contents.put k none := by
  funext k'
  unfold PlainStore.contents Memory.put
  rw [Table.get?_erase]
  by_cases h : k = k'
  · simp [h]
  · simp [h, Ne.symm h]

/-- A change is made, or it is refused and nothing else happens. -/
theorem PlainStore.change_cases (k : Bytes) (c : Change) (s : PlainStore) :
    (∃ t : PlainStore, PlainStore.store.change k c s = (.ok (), t) ∧ t.contents = s.contents.put k c.read) ∨
      PlainStore.store.change k c s = (PlainStore.injected, s) := by
  cases c with
  | value v =>
    show (∃ t : PlainStore, PlainStore.set k v s = (.ok (), t) ∧ t.contents = s.contents.put k v) ∨
      PlainStore.set k v s = (PlainStore.injected, s)
    unfold PlainStore.set
    split_ifs with hw
    · exact .inr rfl
    · split
      · exact .inl ⟨_, rfl, s.contents_insert k v _⟩
      · exact .inr rfl
      · exact .inl ⟨_, rfl, s.contents_insert k v _⟩
  | deleted =>
    show (∃ t : PlainStore, PlainStore.delete k s = (.ok (), t) ∧ t.contents = s.contents.put k none) ∨
      PlainStore.delete k s = (PlainStore.injected, s)
    unfold PlainStore.delete
    split_ifs with hd
    · exact .inr rfl
    · exact .inl ⟨_, rfl, s.contents_erase k⟩

/-- A plain store is fallible, whichever of its operations fail and from when on. -/
theorem PlainStore.store_fallible : PlainStore.store.Fallible PlainStore.contents where
  read := by
    intro k s
    show PlainStore.contents (PlainStore.get k s).2 = _
    unfold PlainStore.get
    split_ifs <;> rfl
  answer := by
    intro k s v h
    change (PlainStore.get k s).1 = .ok v at h
    unfold PlainStore.get at h
    split_ifs at h
    · cases h
    · cases h
      rfl
  accepted := by
    intro k c s h
    rcases PlainStore.change_cases k c s with ⟨t, ht, hc⟩ | hi
    · rw [ht]
      exact hc
    · rw [hi] at h
      cases h
  refused := by
    intro k c s e h
    rcases PlainStore.change_cases k c s with ⟨t, ht, -⟩ | hi
    · rw [ht] at h
      cases h
    · rw [hi]

theorem PlainStore.get_sound {s : PlainStore} (h : s.faults = {}) (k : Bytes) : s.get k = (.ok (s.contents k), s) := by
  rw [get, h]
  rfl

/-- A plain store without faults makes every change. -/
theorem PlainStore.change_sound {s : PlainStore} (h : s.faults = {}) (k : Bytes) (c : Change) :
    ∃ t : PlainStore, PlainStore.store.change k c s = (.ok (), t) ∧ t.faults = {} ∧
      t.contents = s.contents.put k c.read := by
  cases c with
  | value v =>
    refine ⟨{ s with values := s.values.insert k v }, ?_, h, s.contents_insert k v _⟩
    show PlainStore.set k v s = _
    rw [PlainStore.set, h]
    rfl
  | deleted =>
    refine ⟨{ s with values := s.values.erase k }, ?_, h, s.contents_erase k⟩
    show PlainStore.delete k s = _
    rw [PlainStore.delete, h]
    rfl

/-- A plain store without faults is faithful to what its keys hold. -/
theorem PlainStore.store_faithful :
    PlainStore.store.Faithful (fun _ => True) (fun s m => s.faults = {} ∧ s.contents = m) where
  get := by
    rintro k s m - ⟨hf, rfl⟩
    have hget : PlainStore.store.get k s = (.ok (s.contents k), s) := PlainStore.get_sound hf k
    rw [hget]
    exact ⟨rfl, hf, rfl⟩
  set := by
    rintro k v s m - ⟨hf, rfl⟩
    obtain ⟨t, ht, htf, htc⟩ := PlainStore.change_sound hf k (.value v)
    change PlainStore.store.set k v s = (.ok (), t) at ht
    rw [ht]
    exact ⟨rfl, htf, htc⟩
  delete := by
    rintro k s m - ⟨hf, rfl⟩
    obtain ⟨t, ht, htf, htc⟩ := PlainStore.change_sound hf k .deleted
    change PlainStore.store.delete k s = (.ok (), t) at ht
    rw [ht]
    exact ⟨rfl, htf, htc⟩

/-! ## Edits -/

/-- The memory after changes made one after the other. -/
def Memory.edited (m : Memory) (edits : List (Bytes × Change)) : Memory :=
  edits.foldl (fun m e => m.put e.1 e.2.read) m

/-- The writes and deletions that the program asks for in a run from this state, in order. -/
def Program.edits (s : Store σ) : Program α → σ → List (Bytes × Change)
  | .done _, _ => []
  | .get k next, st => (next (s.get k st).1).edits s (s.get k st).2
  | .set k v next, st => (k, .value v) :: (next (s.set k v st).1).edits s (s.set k v st).2
  | .delete k next, st => (k, .deleted) :: (next (s.delete k st).1).edits s (s.delete k st).2
  | .log _ next, st => next.edits s st

theorem Program.edits_bind (s : Store σ) (p : Program α) (f : α → Program β) (st : σ) :
    (p >>= f).edits s st = p.edits s st ++
      match (p.run s st).outcome with
      | .ok a => (f a).edits s (p.run s st).state
      | _ => [] := by
  show (p.bind f).edits s st = _
  induction p generalizing st with
  | done o => cases o <;> rfl
  | get k next ih => exact ih _ _
  | set k v next ih => exact congrArg _ (ih _ _)
  | delete k next ih => exact congrArg _ (ih _ _)
  | log e next ih => exact ih st

theorem Reading.edits_toProgram (s : Store σ) (p : Reading α) (st : σ) : p.toProgram.edits s st = [] := by
  induction p generalizing st with
  | done o => rfl
  | get k next ih => exact ih _ _

theorem Program.edits_scoped (space : Bytes) (s : Store σ) (p : Program α) (st : σ) :
    (p.scoped space).edits s st =
      (p.edits (s.scoped space) st).map fun e => (Namespace.key space e.1, e.2) := by
  induction p generalizing st with
  | done o => rfl
  | get k next ih => exact ih _ _
  | set k v next ih => exact congrArg _ (ih _ _)
  | delete k next ih => exact congrArg _ (ih _ _)
  | log e next ih => exact ih st

/-! ## Overlays of a store that may fail -/

/-- The overlay with the contents of its store in place of the store. -/
def Overlay.over (contents : σ → Memory) (o : Overlay σ) : Overlay Memory :=
  { changes := o.changes, base := contents o.base }

/-- A read through an overlay changes nothing, whether or not the store below answers. -/
theorem Overlay.over_get {s : Store σ} {contents : σ → Memory} (hs : s.Fallible contents) (k : Bytes)
    (o : Overlay σ) : (o.get s.toSource k).2.over contents = o.over contents := by
  cases h : o.changes.get? k with
  | some c => rw [Overlay.get_changed _ h]
  | none =>
    rw [Overlay.get_unchanged _ h]
    simp only [Overlay.over]
    rw [hs.read]

/-- What a program leaves on an overlay: the store below with its contents, the edits in the view. -/
theorem Program.run_overlay {s : Store σ} {contents : σ → Memory} (hs : s.Fallible contents) (p : Program α)
    (o : Overlay σ) :
    let r := p.run (Overlay.store s.toSource) o
    contents r.state.base = contents o.base ∧
      (r.state.over contents).contents =
        (o.over contents).contents.edited (p.edits (Overlay.store s.toSource) o) := by
  induction p generalizing o with
  | done out => exact ⟨rfl, rfl⟩
  | get k next ih =>
    obtain ⟨hb, hc⟩ := ih _ (o.get s.toSource k).2
    have hover := Overlay.over_get hs k o
    refine ⟨hb.trans (congrArg Overlay.base hover), ?_⟩
    rw [hover] at hc
    exact hc
  | set k v next ih =>
    obtain ⟨hb, hc⟩ := ih (.ok ()) { o with changes := o.changes.insert k (.value v) }
    refine ⟨hb, hc.trans ?_⟩
    have hput := Overlay.contents_insert (o.over contents) k (.value v)
    exact congrArg (fun m : Memory => m.edited _) hput
  | delete k next ih =>
    obtain ⟨hb, hc⟩ := ih (.ok ()) { o with changes := o.changes.insert k .deleted }
    refine ⟨hb, hc.trans ?_⟩
    have hput := Overlay.contents_insert (o.over contents) k .deleted
    exact congrArg (fun m : Memory => m.edited _) hput
  | log e next ih => exact ih o

/-- The changes of an overlay that a program has run on are its edits, the last of a key counting. -/
theorem Program.changes_overlay (below : Source σ) (p : Program α) (o : Overlay σ) :
    (p.run (Overlay.store below) o).state.changes =
      (p.edits (Overlay.store below) o).foldl (fun t e => t.insert e.1 e.2) o.changes := by
  induction p generalizing o with
  | done out => rfl
  | get k next ih =>
    refine (ih _ (o.get below k).2).trans ?_
    have hsame : (o.get below k).2.changes = o.changes := by
      cases h : o.changes.get? k with
      | some c => rw [Overlay.get_changed _ h]
      | none => rw [Overlay.get_unchanged _ h]
    rw [hsame]
    rfl
  | set k v next ih => exact ih (.ok ()) { o with changes := o.changes.insert k (.value v) }
  | delete k next ih => exact ih (.ok ()) { o with changes := o.changes.insert k .deleted }
  | log e next ih => exact ih o

/-! ## The commit -/

theorem Memory.apply_edited (m : Memory) (l : List (Bytes × Change)) :
    Memory.store.apply l m = (.ok (), m.edited l) := by
  induction l generalizing m with
  | nil => rfl
  | cons e rest ih =>
    obtain ⟨k, c⟩ := e
    rw [Store.apply_cons, Memory.change_eq]
    exact ih _

/-- The changes of an overlay, made on its memory, give its view. -/
theorem Overlay.edited_entries (o : Overlay Memory) : o.base.edited o.changes.entries = o.contents := by
  have h := Overlay.apply_memory o
  rw [Memory.apply_edited] at h
  exact congrArg Prod.snd h

/-- Applying changes to a store that may fail: all are made, or those before the one refused. -/
theorem Store.apply_fallible {s : Store σ} {contents : σ → Memory} (hs : s.Fallible contents)
    (l : List (Bytes × Change)) (st : σ) :
    ((s.apply l st).1 = .ok () ∧ contents (s.apply l st).2 = (contents st).edited l) ∨
      ∃ made k c rest cause, l = made ++ (k, c) :: rest ∧
        (s.apply l st).1 = .error (.within (.applyKey k) cause) ∧
        contents (s.apply l st).2 = (contents st).edited made := by
  induction l generalizing st with
  | nil => exact .inl ⟨rfl, rfl⟩
  | cons e rest ih =>
    obtain ⟨k, c⟩ := e
    rw [Store.apply_cons]
    cases hr : (s.change k c st).1 with
    | error cause => exact .inr ⟨[], k, c, rest, cause, rfl, rfl, hs.refused k c st cause hr⟩
    | ok u =>
      have hput := hs.accepted k c st hr
      rcases ih (s.change k c st).2 with ⟨hok, hc⟩ | ⟨made, k', c', rest', cause, rfl, herr, hc⟩
      · refine .inl ⟨hok, hc.trans ?_⟩
        rw [hput]
        rfl
      · refine .inr ⟨(k, c) :: made, k', c', rest', cause, rfl, herr, hc.trans ?_⟩
        rw [hput]
        rfl

end CounterLedger
