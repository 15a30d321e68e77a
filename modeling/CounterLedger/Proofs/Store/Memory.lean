/-
Stores seen through their contents. A memory says what each key reads as, and is itself a store
that never fails. A store is faithful to its contents when it answers like the memory it holds.
On a memory the overlay disappears: a staged program runs as it would on the memory itself, and
what it leaves is kept when it succeeds and dropped otherwise.
-/
import CounterLedger.Proofs.Store.Alike

namespace CounterLedger

variable {α σ : Type}

/-- What each key of a store reads as. -/
abbrev Memory := Bytes → Payload

namespace Memory

/-- The memory in which no key has a value. -/
def empty : Memory := fun _ => none

/-- The memory with another value for one key. -/
def put (m : Memory) (k : Bytes) (v : Payload) : Memory := fun k' => if k' = k then v else m k'

@[simp] theorem put_same (m : Memory) (k : Bytes) (v : Payload) : m.put k v k = v := if_pos rfl

theorem put_other (m : Memory) {k k' : Bytes} (v : Payload) (h : k' ≠ k) : m.put k v k' = m k' := if_neg h

/-- The memory as a store. -/
def store : Store Memory where
  get k m := (.ok (m k), m)
  set k v m := (.ok (), m.put k v)
  delete k m := (.ok (), m.put k none)

end Memory

/-- The store never fails on `keys` and answers as its contents say; `holds` tells which contents
a state has. -/
def Store.Faithful (s : Store σ) (keys : Bytes → Prop) (holds : σ → Memory → Prop) : Prop :=
  s.Alike Memory.store keys holds

theorem Memory.store_faithful : Memory.store.Faithful (fun _ => True) Eq where
  get := by rintro k m - - rfl; exact ⟨rfl, rfl⟩
  set := by rintro k v m - - rfl; exact ⟨rfl, rfl⟩
  delete := by rintro k m - - rfl; exact ⟨rfl, rfl⟩

/-! ## Programs on a memory -/

/-- A program leaves the keys alone that it does not use. -/
theorem Program.run_frame (p : Program α) (m : Memory) {k : Bytes}
    (hk : k ∉ p.keysUsed Memory.store m) : (p.run Memory.store m).state k = m k := by
  induction p generalizing m with
  | done o => rfl
  | get k' next ih => exact ih _ m fun h => hk (List.mem_cons_of_mem _ h)
  | set k' v next ih =>
    have hne : k ≠ k' := fun h => hk (h ▸ List.mem_cons_self)
    exact (ih _ _ fun h => hk (List.mem_cons_of_mem _ h)).trans (m.put_other v hne)
  | delete k' next ih =>
    have hne : k ≠ k' := fun h => hk (h ▸ List.mem_cons_self)
    exact (ih _ _ fun h => hk (List.mem_cons_of_mem _ h)).trans (m.put_other none hne)
  | log e next ih => exact ih m hk

theorem Reading.run_memory_state (p : Reading α) (m : Memory) :
    (p.run Memory.store.toSource m).2 = m := by
  induction p with
  | done o => rfl
  | get k next ih => exact ih _

/-! ## Overlays of a memory -/

/-- What the keys of an overlay of a memory read as. -/
def Overlay.contents (o : Overlay Memory) : Memory := fun k =>
  match o.changes.get? k with
  | some c => c.read
  | none => o.base k

theorem Overlay.contents_insert (o : Overlay Memory) (k : Bytes) (c : Change) :
    Overlay.contents { o with changes := o.changes.insert k c } = o.contents.put k c.read := by
  funext k'
  unfold Overlay.contents Memory.put
  rw [Table.get?_insert]
  by_cases h : k = k'
  · subst h; simp
  · simp [h, Ne.symm h]

/-- An overlay of a memory is faithful to its contents, and leaves the memory below as it is. -/
theorem Overlay.memory_faithful (m : Memory) :
    (Overlay.store Memory.store.toSource).Faithful (fun _ => True)
      (fun o n => o.base = m ∧ o.contents = n) where
  get := by
    rintro k o n - ⟨hb, hc⟩
    subst hc
    show (o.get Memory.store.toSource k).1 = .ok (o.contents k) ∧
      (o.get Memory.store.toSource k).2.base = m ∧ (o.get Memory.store.toSource k).2.contents = o.contents
    cases h : o.changes.get? k with
    | some c =>
      rw [Overlay.get_changed _ h]
      exact ⟨by simp [Overlay.contents, h], hb, rfl⟩
    | none =>
      rw [Overlay.get_unchanged _ h]
      exact ⟨by rw [Overlay.contents, h]; rfl, hb, rfl⟩
  set := by
    rintro k v o n - ⟨hb, hc⟩
    subst hc
    exact ⟨rfl, hb, o.contents_insert k (.value v)⟩
  delete := by
    rintro k o n - ⟨hb, hc⟩
    subst hc
    exact ⟨rfl, hb, o.contents_insert k .deleted⟩

/-- An overlay of a faithful store is faithful to its contents. -/
theorem Overlay.store_faithful {s : Store σ} {keys : Bytes → Prop} {holds : σ → Memory → Prop}
    (h : s.Faithful keys holds) (m : Memory) :
    (Overlay.store s.toSource).Faithful keys
      (fun o n => ∃ p, o.Rel keys holds p ∧ p.base = m ∧ p.contents = n) :=
  (Overlay.store_alike h).trans (Overlay.memory_faithful m) fun _ _ => trivial

/-- What the keys of a snapshot read as. -/
def Snapshot.contents (o : Snapshot) : Memory := fun k =>
  match o.changes.get? k with
  | some c => c.read
  | none => none

theorem Snapshot.contents_new : Snapshot.new.contents = Memory.empty := rfl

theorem Snapshot.contents_insert (o : Snapshot) (k : Bytes) (c : Change) :
    Snapshot.contents { o with changes := o.changes.insert k c } = (Snapshot.contents o).put k c.read := by
  funext k'
  unfold Snapshot.contents Memory.put
  rw [Table.get?_insert]
  by_cases h : k = k'
  · subst h; simp
  · simp [h, Ne.symm h]

/-- A snapshot is a faithful store for all keys. -/
theorem Snapshot.store_faithful :
    Snapshot.store.Faithful (fun _ => True) (fun o m => Snapshot.contents o = m) where
  get := by
    rintro k o - - rfl
    show (o.get Source.empty k).1 = .ok (Snapshot.contents o k) ∧
      Snapshot.contents (o.get Source.empty k).2 = Snapshot.contents o
    cases h : o.changes.get? k with
    | some c => rw [Overlay.get_changed _ h]; exact ⟨by simp [Snapshot.contents, h], rfl⟩
    | none => rw [Overlay.get_unchanged _ h]; exact ⟨by rw [Snapshot.contents, h]; rfl, rfl⟩
  set := by
    rintro k v o - - rfl
    exact ⟨rfl, Snapshot.contents_insert o k (.value v)⟩
  delete := by
    rintro k o - - rfl
    exact ⟨rfl, Snapshot.contents_insert o k .deleted⟩

theorem Memory.change_eq (m : Memory) (k : Bytes) (c : Change) :
    Memory.store.change k c m = (.ok (), m.put k c.read) := by
  cases c <;> rfl

theorem Table.findEntry_eq_none {β : Type} {k : Bytes} {l : List (Bytes × β)} (h : ∀ e ∈ l, k < e.1) :
    Table.findEntry k l = none := by
  induction l with
  | nil => rfl
  | cons e rest ih =>
    have hne : e.1 ≠ k := fun he => List.lt_irrefl k (he ▸ h e List.mem_cons_self)
    rw [Table.findEntry, if_neg hne]
    exact ih fun e' he' => h e' (List.mem_cons_of_mem _ he')

/-- Applied to a memory, changes to different keys all take effect. -/
theorem Memory.apply_eq : ∀ {l : List (Bytes × Change)} (m : Memory), l.Pairwise (fun a b => a.1 < b.1) →
    Memory.store.apply l m =
      (.ok (), fun k => match Table.findEntry k l with | some c => c.read | none => m k)
  | [], _, _ => rfl
  | (k, c) :: rest, m, h => by
    obtain ⟨hk, hrest⟩ := List.pairwise_cons.1 h
    rw [Store.apply_cons, Memory.change_eq]
    simp only
    rw [Memory.apply_eq _ hrest]
    congr 1
    funext k'
    unfold Memory.put
    rw [Table.findEntry]
    by_cases hkk : k = k'
    · subst hkk
      simp [Table.findEntry_eq_none hk]
    · simp [hkk, Ne.symm hkk]

theorem Overlay.apply_memory (o : Overlay Memory) :
    Memory.store.apply o.changes.entries o.base = (.ok (), o.contents) :=
  Memory.apply_eq o.base o.changes.sorted

/-- The memory that a run leaves when its writes only count if it succeeds. -/
def Program.Ran.kept (r : Ran α Memory) (m : Memory) : Memory :=
  match r.outcome with
  | .ok _ => r.state
  | _ => m

/-- Staging a program over a memory is running it on the memory and keeping what it leaves if it
succeeds. -/
theorem Memory.stage_eq (p : Program α) (m : Memory) :
    let staged := p.run (Overlay.store Memory.store.toSource) { base := m }
    Memory.store.settle (staged.outcome, staged.state) =
        ((p.run Memory.store m).outcome, (p.run Memory.store m).kept m) ∧
      staged.logs = (p.run Memory.store m).logs := by
  intro staged
  have h0 : Overlay.contents { base := m } = m := rfl
  obtain ⟨ho, hl, hb, hc⟩ := Program.run_alike (Overlay.memory_faithful m) p.uses_true
    (show Overlay.base { base := m } = m ∧ Overlay.contents { base := m } = m from ⟨rfl, h0⟩)
  refine ⟨?_, hl⟩
  unfold Program.Ran.kept
  rw [← ho, ← hc]
  show Memory.store.settle (staged.outcome, staged.state) = _
  change staged.state.base = m at hb
  change _ = (staged.outcome, match staged.outcome with
    | .ok _ => staged.state.contents
    | _ => m)
  cases staged.outcome with
  | ok a => rw [Store.settle_ok, Overlay.apply_memory]
  | error e => rw [← hb]; rfl
  | abort r => rw [← hb]; rfl

end CounterLedger
