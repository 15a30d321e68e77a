/-
Nested staging. A computation may open a block on the store that it works on, work on the overlay
of the block, and open further blocks there, to any depth; a block that fails is dropped and one
that succeeds is committed to the store around it. Whatever store is at the bottom, as long as it
answers by its contents, all this is the same as to work on one plain map that is copied when a
block is entered and put back when the block fails.
-/
import CounterLedger.Proofs.Store.Memory

namespace CounterLedger

variable {σ : Type}

/-- A computation with blocks. It is handed the result of every operation and of every block, and
goes on as it likes; each operation works on the innermost store that is open. -/
inductive Nested where
  | done (result : Except Error Unit)
  | get (key : Bytes) (next : Except Error Payload → Nested)
  | set (key : Bytes) (value : Payload) (next : Except Error Unit → Nested)
  | delete (key : Bytes) (next : Except Error Unit → Nested)
  /-- Stages a block and goes on with its outcome. -/
  | stage (block : Nested) (next : Outcome Unit → Nested)

namespace Nested

/-- Something that a computation with blocks gets to see. -/
inductive Seen where
  | read (result : Except Error Payload)
  | wrote (result : Except Error Unit)
  | closed (outcome : Outcome Unit)

/-- How a computation with blocks ends, and all that it has seen on the way, also in blocks that
failed. -/
structure Ran (σ : Type) where
  result : Except Error Unit
  state : σ
  seen : List Seen := []

/-- The run of what comes after something was seen. -/
def Ran.after (seen : List Seen) (r : Ran σ) : Ran σ := { r with seen := seen ++ r.seen }

/-- Runs the computation on a store. A block runs on an overlay of the store that is open. -/
def run : Nested → {σ : Type} → Store σ → σ → Ran σ
  | .done result, _, _, st => { result, state := st }
  | .get k next, _, s, st =>
    let r := s.get k st
    ((next r.1).run s r.2).after [.read r.1]
  | .set k v next, _, s, st =>
    let r := s.set k v st
    ((next r.1).run s r.2).after [.wrote r.1]
  | .delete k next, _, s, st =>
    let r := s.delete k st
    ((next r.1).run s r.2).after [.wrote r.1]
  | .stage block next, σ, s, st =>
    let inner := block.run (Overlay.store s.toSource) { base := st }
    let r := s.stage (σ := σ) (fun o =>
      let b := block.run (Overlay.store s.toSource) o
      (.ofExcept b.result, b.state)) st
    ((next r.1).run s r.2).after (inner.seen ++ [.closed r.1])

/-- Runs the computation on a plain map. The map is copied when a block is entered, and the copy is
put back when the block fails. -/
def reference : Nested → Memory → Ran Memory
  | .done result, m => { result, state := m }
  | .get k next, m => ((next (.ok (m k))).reference m).after [.read (.ok (m k))]
  | .set k v next, m => ((next (.ok ())).reference (m.put k v)).after [.wrote (.ok ())]
  | .delete k next, m => ((next (.ok ())).reference (m.put k none)).after [.wrote (.ok ())]
  | .stage block next, m =>
    let inner := block.reference m
    let left := match inner.result with
      | .ok () => inner.state
      | .error _ => m
    ((next (.ofExcept inner.result)).reference left).after (inner.seen ++ [.closed (.ofExcept inner.result)])

/-- Every key that the computation may use, in blocks too, is one of `keys`. -/
def Uses (keys : Bytes → Prop) : Nested → Prop
  | .done _ => True
  | .get k next => keys k ∧ ∀ v, (next v).Uses keys
  | .set k _ next => keys k ∧ ∀ r, (next r).Uses keys
  | .delete k next => keys k ∧ ∀ r, (next r).Uses keys
  | .stage block next => block.Uses keys ∧ ∀ o, (next o).Uses keys

end Nested

/-! ## Committing a block -/

/-- The end of a block over a memory: its view is kept when it succeeded, the memory otherwise. -/
theorem Memory.settle_eq {α : Type} (out : Outcome α) (o : Overlay Memory) :
    Memory.store.settle (out, o) = (out, match out with
      | .ok _ => o.contents
      | _ => o.base) := by
  cases out with
  | ok a => rw [Store.settle_ok, Overlay.apply_memory]
  | error e => rfl
  | abort r => rfl

namespace Nested

section Faithful

variable {keys : Bytes → Prop}

/-- A block on a faithful store ends as on the memory that the store holds, and what it leaves in
the store is the view of the block if it succeeded and the old memory if it failed. -/
theorem settle_block {s : Store σ} {holds : σ → Memory → Prop} (hs : s.Faithful keys holds)
    (result : Except Error Unit) {o : Overlay σ} {m n : Memory}
    (h : ∃ p, o.Rel keys holds p ∧ p.base = m ∧ p.contents = n) :
    (s.settle (.ofExcept result, o)).1 = .ofExcept result ∧
      holds (s.settle (.ofExcept result, o)).2 (match result with
        | .ok () => n
        | .error _ => m) := by
  obtain ⟨p, hrel, rfl, rfl⟩ := h
  obtain ⟨hout, hholds⟩ := Store.settle_alike hs (.ofExcept result) hrel
  rw [Memory.settle_eq] at hout hholds
  refine ⟨hout, ?_⟩
  cases result with
  | ok u => exact hholds
  | error e => exact hholds

/-- On a faithful store a computation with blocks runs like on the plain map that the store holds. -/
theorem run_faithful (p : Nested) : ∀ {σ : Type} {s : Store σ} {holds : σ → Memory → Prop},
    s.Faithful keys holds → p.Uses keys → ∀ {st : σ} {m : Memory}, holds st m →
      (p.run s st).result = (p.reference m).result ∧ (p.run s st).seen = (p.reference m).seen ∧
        holds (p.run s st).state (p.reference m).state := by
  induction p with
  | done result =>
    intro σ s holds _ _ st m h
    exact ⟨rfl, rfl, h⟩
  | get k next ih =>
    intro σ s holds hs hp st m h
    obtain ⟨hv, h'⟩ := hs.get hp.1 h
    obtain ⟨hr, hseen, hstate⟩ := ih (.ok (m k)) hs (hp.2 _) h'
    simp only [run, reference, Ran.after, hv]
    exact ⟨hr, congrArg _ hseen, hstate⟩
  | set k v next ih =>
    intro σ s holds hs hp st m h
    obtain ⟨hv, h'⟩ := hs.set (v := v) hp.1 h
    obtain ⟨hr, hseen, hstate⟩ := ih (.ok ()) hs (hp.2 _) h'
    simp only [run, reference, Ran.after, hv]
    exact ⟨hr, congrArg _ hseen, hstate⟩
  | delete k next ih =>
    intro σ s holds hs hp st m h
    obtain ⟨hv, h'⟩ := hs.delete hp.1 h
    obtain ⟨hr, hseen, hstate⟩ := ih (.ok ()) hs (hp.2 _) h'
    simp only [run, reference, Ran.after, hv]
    exact ⟨hr, congrArg _ hseen, hstate⟩
  | stage block next ihb ih =>
    intro σ s holds hs hp st m h
    -- the block runs on an overlay, which is again faithful, now to the view of the block
    have h0 : Overlay.Rel keys holds { base := st } { base := m } :=
      ⟨rfl, fun _ he => absurd he List.not_mem_nil, h⟩
    obtain ⟨hbr, hbseen, hbstate⟩ := ihb (Overlay.store_faithful hs m) hp.1 ⟨_, h0, rfl, rfl⟩
    have hsettle := settle_block hs (block.run (Overlay.store s.toSource) { base := st }).result hbstate
    obtain ⟨hout, hleft⟩ := hsettle
    rw [hbr] at hout hleft
    obtain ⟨hr, hseen, hstate⟩ := ih (.ofExcept (block.reference m).result) hs (hp.2 _) hleft
    simp only [run, reference, Ran.after, Store.stage, hbr, hout, hbseen]
    exact ⟨hr, congrArg _ hseen, hstate⟩

end Faithful

end Nested

end CounterLedger
