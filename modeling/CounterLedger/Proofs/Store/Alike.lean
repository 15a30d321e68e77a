/-
Stores that answer alike. Two stores are alike over a set of keys when a relation between their
states is kept by every operation on such a key and makes the operation answer the same on both.
Every program that uses only such keys then runs the same on both, and so do an overlay of either
and the commit of its changes. Nothing is asked of the stores but this: they may fail, as long as
they fail together.
-/
import CounterLedger.Proofs.Store.Program
import CounterLedger.Store.Overlay

namespace CounterLedger

variable {α σ τ : Type}

/-! ## Running on stores that answer alike -/

/-- The two stores answer alike on `keys` in states that are related, and the states after an
operation are related again. -/
structure Store.Alike (s : Store σ) (t : Store τ) (keys : Bytes → Prop) (R : σ → τ → Prop) : Prop where
  get : ∀ {k st tt}, keys k → R st tt →
    (s.get k st).1 = (t.get k tt).1 ∧ R (s.get k st).2 (t.get k tt).2
  set : ∀ {k v st tt}, keys k → R st tt →
    (s.set k v st).1 = (t.set k v tt).1 ∧ R (s.set k v st).2 (t.set k v tt).2
  delete : ∀ {k st tt}, keys k → R st tt →
    (s.delete k st).1 = (t.delete k tt).1 ∧ R (s.delete k st).2 (t.delete k tt).2

theorem Store.Alike.trans {υ : Type} {s : Store σ} {t : Store τ} {u : Store υ} {keys keys' : Bytes → Prop}
    {R : σ → τ → Prop} {S : τ → υ → Prop} (h : s.Alike t keys R) (h' : t.Alike u keys' S)
    (hk : ∀ k, keys k → keys' k) : s.Alike u keys (fun a c => ∃ b, R a b ∧ S b c) where
  get := by
    rintro k a c hkey ⟨b, hR, hS⟩
    obtain ⟨e, hR'⟩ := h.get hkey hR
    obtain ⟨e', hS'⟩ := h'.get (hk k hkey) hS
    exact ⟨e.trans e', _, hR', hS'⟩
  set := by
    rintro k v a c hkey ⟨b, hR, hS⟩
    obtain ⟨e, hR'⟩ := h.set hkey hR
    obtain ⟨e', hS'⟩ := h'.set (hk k hkey) hS
    exact ⟨e.trans e', _, hR', hS'⟩
  delete := by
    rintro k a c hkey ⟨b, hR, hS⟩
    obtain ⟨e, hR'⟩ := h.delete hkey hR
    obtain ⟨e', hS'⟩ := h'.delete (hk k hkey) hS
    exact ⟨e.trans e', _, hR', hS'⟩

section Alike

variable {s : Store σ} {t : Store τ} {keys : Bytes → Prop} {R : σ → τ → Prop}

theorem Reading.run_alike (h : s.Alike t keys R) {p : Reading α} (hp : p.Uses keys) {st : σ} {tt : τ}
    (hR : R st tt) :
    (p.run s.toSource st).1 = (p.run t.toSource tt).1 ∧
      R (p.run s.toSource st).2 (p.run t.toSource tt).2 := by
  induction p generalizing st tt with
  | done o => exact ⟨rfl, hR⟩
  | get k next ih =>
    obtain ⟨hv, hR'⟩ := h.get hp.1 hR
    simp only [Reading.run]
    rw [hv]
    exact ih _ (hp.2 _) hR'

/-- It is enough that the stores answer alike on the keys that the program uses on the way. -/
theorem Program.run_alike_used (h : s.Alike t keys R) {p : Program α} {st : σ} {tt : τ}
    (hp : ∀ k ∈ p.keysUsed s st, keys k) (hR : R st tt) :
    (p.run s st).outcome = (p.run t tt).outcome ∧ (p.run s st).logs = (p.run t tt).logs ∧
      R (p.run s st).state (p.run t tt).state := by
  induction p generalizing st tt with
  | done o => exact ⟨rfl, rfl, hR⟩
  | get k next ih =>
    obtain ⟨hv, hR'⟩ := h.get (hp k List.mem_cons_self) hR
    have hrest := ih (s.get k st).1 (fun k' hk' => hp k' (List.mem_cons_of_mem _ hk')) hR'
    simp only [Program.run]
    rw [← hv]
    exact hrest
  | set k v next ih =>
    obtain ⟨hr, hR'⟩ := h.set (hp k List.mem_cons_self) hR
    have hrest := ih (s.set k v st).1 (fun k' hk' => hp k' (List.mem_cons_of_mem _ hk')) hR'
    simp only [Program.run]
    rw [← hr]
    exact hrest
  | delete k next ih =>
    obtain ⟨hr, hR'⟩ := h.delete (hp k List.mem_cons_self) hR
    have hrest := ih (s.delete k st).1 (fun k' hk' => hp k' (List.mem_cons_of_mem _ hk')) hR'
    simp only [Program.run]
    rw [← hr]
    exact hrest
  | log e next ih =>
    obtain ⟨ho, hl, hR'⟩ := ih hp hR
    exact ⟨ho, by simp only [Program.run, hl], hR'⟩

theorem Program.run_alike (h : s.Alike t keys R) {p : Program α} (hp : p.Uses keys) {st : σ} {tt : τ}
    (hR : R st tt) :
    (p.run s st).outcome = (p.run t tt).outcome ∧ (p.run s st).logs = (p.run t tt).logs ∧
      R (p.run s st).state (p.run t tt).state :=
  Program.run_alike_used h (hp.keysUsed s st) hR

/-! ## Overlays and their commit -/

theorem Overlay.get_changed (below : Source σ) {o : Overlay σ} {k : Bytes} {c : Change}
    (h : o.changes.get? k = some c) : o.get below k = (.ok c.read, o) := by
  unfold Overlay.get
  rw [h]

/-- A key that was not changed is read from below, and only the context of a failure differs. -/
theorem Overlay.get_unchanged (below : Source σ) {o : Overlay σ} {k : Bytes}
    (h : o.changes.get? k = none) :
    o.get below k =
      ((below.get k o.base).1.mapError (.within .parent), { o with base := (below.get k o.base).2 }) := by
  unfold Overlay.get
  rw [h]
  rcases below.get k o.base with ⟨_ | _, base⟩ <;> rfl

/-- One change applied to a store. -/
def Store.change (s : Store σ) (k : Bytes) (c : Change) (st : σ) : Except Error Unit × σ :=
  match c with
  | .value v => s.set k v st
  | .deleted => s.delete k st

theorem Store.apply_cons (s : Store σ) (k : Bytes) (c : Change) (rest : List (Bytes × Change)) (st : σ) :
    s.apply ((k, c) :: rest) st =
      match (s.change k c st).1 with
      | .ok _ => s.apply rest (s.change k c st).2
      | .error e => (.error (.within (.applyKey k) e), (s.change k c st).2) := by
  cases c <;> rfl

theorem Store.settleIn_ok (s : Store σ) (visit : Table Change → List (Bytes × Change)) (a : α) (o : Overlay σ) :
    s.settleIn visit (.ok a, o) =
      match (s.apply (visit o.changes) o.base).1 with
      | .ok _ => (.ok a, (s.apply (visit o.changes) o.base).2)
      | .error e => (.error (.within .commit e), (s.apply (visit o.changes) o.base).2) := by
  simp only [Store.settleIn]
  rcases s.apply (visit o.changes) o.base with ⟨_ | _, st⟩ <;> rfl

theorem Store.settle_ok (s : Store σ) (a : α) (o : Overlay σ) :
    s.settle (.ok a, o) =
      match (s.apply o.changes.entries o.base).1 with
      | .ok _ => (.ok a, (s.apply o.changes.entries o.base).2)
      | .error e => (.error (.within .commit e), (s.apply o.changes.entries o.base).2) :=
  s.settleIn_ok Table.entries a o

/-- Overlays with the same changes, all of them on `keys`, over related states. -/
structure Overlay.Rel (keys : Bytes → Prop) (R : σ → τ → Prop) (o : Overlay σ) (p : Overlay τ) : Prop where
  changes : o.changes = p.changes
  keyed : ∀ e ∈ o.changes.entries, keys e.1
  base : R o.base p.base

theorem Overlay.Rel.insert {o : Overlay σ} {p : Overlay τ} (h : o.Rel keys R p) {k : Bytes} (hk : keys k)
    (c : Change) :
    Overlay.Rel keys R { o with changes := o.changes.insert k c }
      { p with changes := p.changes.insert k c } := by
  refine ⟨by rw [h.changes], ?_, h.base⟩
  intro e he
  rcases Table.mem_insertEntry he with rfl | he
  · exact hk
  · exact h.keyed e he

/-- Overlays of stores that answer alike answer alike. -/
theorem Overlay.store_alike (h : s.Alike t keys R) :
    (Overlay.store s.toSource).Alike (Overlay.store t.toSource) keys (Overlay.Rel keys R) where
  get := by
    intro k o p hk ho
    show (o.get s.toSource k).1 = (p.get t.toSource k).1 ∧
      Overlay.Rel keys R (o.get s.toSource k).2 (p.get t.toSource k).2
    cases hc : o.changes.get? k with
    | some c =>
      rw [Overlay.get_changed _ hc, Overlay.get_changed _ (ho.changes ▸ hc)]
      exact ⟨rfl, ho⟩
    | none =>
      obtain ⟨hv, hb⟩ := h.get hk ho.base
      rw [Overlay.get_unchanged _ hc, Overlay.get_unchanged _ (ho.changes ▸ hc)]
      exact ⟨by simp only [hv], ho.changes, ho.keyed, hb⟩
  set := fun hk ho => ⟨rfl, ho.insert hk _⟩
  delete := fun hk ho => ⟨rfl, ho.insert hk _⟩

theorem Store.change_alike (h : s.Alike t keys R) {k : Bytes} (hk : keys k) (c : Change) {st : σ} {tt : τ}
    (hR : R st tt) :
    (s.change k c st).1 = (t.change k c tt).1 ∧ R (s.change k c st).2 (t.change k c tt).2 := by
  cases c with
  | value v => exact h.set hk hR
  | deleted => exact h.delete hk hR

theorem Store.apply_alike (h : s.Alike t keys R) :
    ∀ {l : List (Bytes × Change)} {st : σ} {tt : τ}, (∀ e ∈ l, keys e.1) → R st tt →
      (s.apply l st).1 = (t.apply l tt).1 ∧ R (s.apply l st).2 (t.apply l tt).2
  | [], _, _, _, hR => ⟨rfl, hR⟩
  | (k, c) :: rest, st, tt, hl, hR => by
    obtain ⟨hr, hR'⟩ := Store.change_alike h (hl (k, c) List.mem_cons_self) c hR
    rw [Store.apply_cons, Store.apply_cons, hr]
    cases (t.change k c tt).1 with
    | ok u => exact Store.apply_alike h (fun e he => hl e (List.mem_cons_of_mem _ he)) hR'
    | error e => exact ⟨rfl, hR'⟩

theorem Store.settle_alike (h : s.Alike t keys R) (out : Outcome α) {o : Overlay σ} {p : Overlay τ}
    (ho : o.Rel keys R p) :
    (s.settle (out, o)).1 = (t.settle (out, p)).1 ∧ R (s.settle (out, o)).2 (t.settle (out, p)).2 := by
  cases out with
  | error e => exact ⟨rfl, ho.base⟩
  | abort r => exact ⟨rfl, ho.base⟩
  | ok a =>
    obtain ⟨hr, hR⟩ := Store.apply_alike h ho.keyed ho.base
    rw [Store.settle_ok, Store.settle_ok, ← ho.changes, hr]
    cases (t.apply o.changes.entries p.base).1 with
    | ok u => exact ⟨rfl, hR⟩
    | error e => exact ⟨rfl, hR⟩

end Alike

end CounterLedger
