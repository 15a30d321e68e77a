/-
The commit of an overlay in any order. The changes of an overlay may be visited in any order when
they are committed. Each of them concerns a key of its own, so a target that takes all changes ends
in the same state whatever the order, and a second commit leaves it there. A target that refuses a
change ends the commit; which changes it has taken by then depends on the order, but no key holds
anything else than its old value or its pending one.
-/
import CounterLedger.Proofs.Store.Edits
import CounterLedger.Proofs.Table

namespace CounterLedger

variable {σ τ : Type}

/-! ## Orders of a commit -/

theorem Table.keys_nodup_of_perm {α : Type} {t : Table α} {l : List (Bytes × α)} (h : l.Perm t.entries) :
    (l.map Prod.fst).Nodup :=
  (h.map Prod.fst).nodup_iff.2 (Table.nodup_keys_of_sorted t.sorted)

/-- In whatever order the entries of a table are visited, the last one of a key is its only one. -/
theorem Table.findEntry_reverse_of_perm {α : Type} {t : Table α} {l : List (Bytes × α)} (h : l.Perm t.entries)
    (k : Bytes) : Table.findEntry k l.reverse = t.get? k :=
  Table.findEntry_perm (l.reverse_perm.trans h)
    (by rw [List.map_reverse, List.nodup_reverse]; exact keys_nodup_of_perm h) k

/-! ## Targets in memory -/

theorem Overlay.apply_eq (below : Source σ) (l : List (Bytes × Change)) (o : Overlay σ) :
    (Overlay.store below).apply l o =
      (.ok (), { o with changes := l.foldl (fun t e => t.insert e.1 e.2) o.changes }) := by
  induction l generalizing o with
  | nil => rfl
  | cons e rest ih =>
    obtain ⟨k, c⟩ := e
    have hchange : (Overlay.store below).change k c o = (.ok (), { o with changes := o.changes.insert k c }) := by
      cases c <;> rfl
    rw [Store.apply_cons, hchange]
    exact ih _

theorem Overlay.get_eq (below : Source σ) (k : Bytes) (o : Overlay σ) :
    (o.get below k).1 = match o.changes.get? k with
      | some c => .ok c.read
      | none => (below.get k o.base).1.mapError (.within .parent) := by
  cases h : o.changes.get? k with
  | some c => rw [Overlay.get_changed _ h]
  | none => rw [Overlay.get_unchanged _ h]

/-- An overlay takes pending changes in any order and more than once, and ends in one state. -/
theorem Overlay.commit_eq (under : Source σ) (pending : Table Change) (target : Overlay σ) :
    ∃ final : Overlay σ,
      (∀ order, order.Perm pending.entries →
        (Overlay.store under).apply order target = (.ok (), final) ∧
          (Overlay.store under).apply order final = (.ok (), final)) ∧
        ∀ k, (final.get under k).1 = match pending.get? k with
          | some c => .ok c.read
          | none => (target.get under k).1 := by
  have hstep := fun (t : Table Change) (e : Bytes × Change) k => t.get?_insert e.1 k e.2
  refine ⟨{ target with changes := pending.entries.foldl (fun t e => t.insert e.1 e.2) target.changes },
    fun order h => ?_, fun k => ?_⟩
  · rw [Overlay.apply_eq, Overlay.apply_eq,
      ← Table.foldl_perm (f := some) hstep h (Table.keys_nodup_of_perm h) target.changes]
    exact ⟨rfl, by rw [Table.foldl_again (f := some) hstep]⟩
  · rw [Overlay.get_eq, Overlay.get_eq, Table.get?_foldl (f := some) hstep,
      Table.findEntry_reverse_of_perm (.refl _)]
    cases pending.get? k <;> rfl

/-! ## Plain targets -/

/-- What a plain store keeps of a change. -/
def Change.kept : Change → Option Payload
  | .value v => some v
  | .deleted => none

/-- The values of a plain store after a change to one key. -/
def Change.onto (t : Table Payload) (e : Bytes × Change) : Table Payload :=
  match e.2.kept with
  | some v => t.insert e.1 v
  | none => t.erase e.1

theorem Change.get?_onto (t : Table Payload) (e : Bytes × Change) (k : Bytes) :
    (Change.onto t e).get? k = if e.1 = k then e.2.kept else t.get? k := by
  obtain ⟨k', v | -⟩ := e
  · exact t.get?_insert k' k v
  · exact t.get?_erase k' k

theorem PlainStore.apply_eq (l : List (Bytes × Change)) {s : PlainStore} (h : s.faults = {}) :
    PlainStore.store.apply l s = (.ok (), { s with values := l.foldl Change.onto s.values }) := by
  induction l generalizing s with
  | nil => rfl
  | cons e rest ih =>
    obtain ⟨k, c⟩ := e
    have hchange : PlainStore.store.change k c s =
        (.ok (), { s with values := Change.onto s.values (k, c) }) := by
      cases c with
      | value v =>
        show PlainStore.set k v s = _
        rw [PlainStore.set, h]
        rfl
      | deleted =>
        show PlainStore.delete k s = _
        rw [PlainStore.delete, h]
        rfl
    rw [Store.apply_cons, hchange]
    exact ih h

/-- A plain store that never fails takes pending changes in any order and more than once, and ends in
one state. -/
theorem PlainStore.commit_eq (pending : Table Change) {target : PlainStore} (hf : target.faults = {}) :
    ∃ final : PlainStore,
      (∀ order, order.Perm pending.entries →
        PlainStore.store.apply order target = (.ok (), final) ∧
          PlainStore.store.apply order final = (.ok (), final)) ∧
        ∀ k, (final.get k).1 = match pending.get? k with
          | some c => .ok c.read
          | none => (target.get k).1 := by
  refine ⟨{ target with values := pending.entries.foldl Change.onto target.values }, fun order h => ?_, fun k => ?_⟩
  · rw [PlainStore.apply_eq _ hf, PlainStore.apply_eq _ (by exact hf),
      ← Table.foldl_perm Change.get?_onto h (Table.keys_nodup_of_perm h) target.values]
    exact ⟨rfl, by rw [Table.foldl_again Change.get?_onto]⟩
  · rw [get_sound hf, get_sound (by exact hf), contents, contents, Table.get?_foldl Change.get?_onto,
      Table.findEntry_reverse_of_perm (.refl _)]
    cases hc : pending.get? k with
    | none => rfl
    | some c => cases c <;> rfl

/-! ## Targets that may refuse a change -/

/-- A commit fails exactly if a change is refused when its turn comes. -/
theorem Store.apply_error_iff (s : Store σ) (l : List (Bytes × Change)) (st : σ) :
    (∃ e, (s.apply l st).1 = .error e) ↔
      ∃ made k c rest cause, l = made ++ (k, c) :: rest ∧ (s.apply made st).1 = .ok () ∧
        (s.change k c (s.apply made st).2).1 = .error cause := by
  induction l generalizing st with
  | nil => simp [Store.apply]
  | cons e rest ih =>
    obtain ⟨k, c⟩ := e
    rw [Store.apply_cons]
    cases hr : (s.change k c st).1 with
    | error cause =>
      exact ⟨fun _ => ⟨[], k, c, rest, cause, rfl, rfl, hr⟩, fun _ => ⟨_, rfl⟩⟩
    | ok u =>
      -- the first change is made, so it is a later one that is refused
      refine (ih (s.change k c st).2).trans ⟨?_, ?_⟩
      · rintro ⟨made, k', c', rest', cause, rfl, hmade, hrefused⟩
        refine ⟨(k, c) :: made, k', c', rest', cause, rfl, ?_⟩
        rw [Store.apply_cons, hr]
        exact ⟨hmade, hrefused⟩
      · rintro ⟨_ | ⟨e, made⟩, k', c', rest', cause, hl, hmade, hrefused⟩
        · obtain ⟨⟨rfl, rfl⟩, rfl⟩ : (k = k' ∧ c = c') ∧ rest = rest' := by simpa using hl
          change (s.change k c st).1 = _ at hrefused
          rw [hr] at hrefused
          cases hrefused
        · obtain ⟨rfl, rfl⟩ : (k, c) = e ∧ rest = made ++ (k', c') :: rest' := by simpa using hl
          rw [Store.apply_cons, hr] at hmade hrefused
          exact ⟨made, k', c', rest', cause, rfl, hmade, hrefused⟩

theorem Memory.edited_eq (m : Memory) (l : List (Bytes × Change)) (k : Bytes) :
    m.edited l k = (Table.findEntry k l.reverse).elim (m k) Change.read := by
  induction l generalizing m with
  | nil => rfl
  | cons e rest ih =>
    show (m.put e.1 e.2.read).edited rest k = _
    rw [ih, List.reverse_cons, Table.findEntry_append]
    cases Table.findEntry k rest.reverse with
    | some c => rfl
    | none =>
      by_cases h : e.1 = k
      · simp [Table.findEntry, Memory.put, h]
      · simp [Table.findEntry, Memory.put, h, Ne.symm h]

/-- The entries of a table make the same edits in whatever order they are visited. -/
theorem Memory.edited_perm {t : Table Change} {l : List (Bytes × Change)} (h : l.Perm t.entries) (m : Memory) :
    m.edited l = m.edited t.entries := by
  funext k
  rw [edited_eq, edited_eq, Table.findEntry_reverse_of_perm h, Table.findEntry_reverse_of_perm (.refl _)]

/-- Whichever changes a target has taken, a key holds its old value or its pending one. -/
theorem Store.Fallible.commit_holds {s : Store σ} {contents : σ → Memory} (hs : s.Fallible contents)
    {pending : Table Change} {order : List (Bytes × Change)} (h : order.Perm pending.entries) (st : σ) (k : Bytes) :
    match pending.get? k with
      | some c => contents (s.apply order st).2 k = contents st k ∨ contents (s.apply order st).2 k = c.read
      | none => contents (s.apply order st).2 k = contents st k := by
  obtain ⟨made, rest, horder, hc⟩ : ∃ made rest, order = made ++ rest ∧
      contents (s.apply order st).2 = (contents st).edited made := by
    rcases Store.apply_fallible hs order st with ⟨-, hc⟩ | ⟨made, k', c, rest, -, hl, -, hc⟩
    · exact ⟨order, [], order.append_nil.symm, hc⟩
    · exact ⟨made, (k', c) :: rest, hl, hc⟩
  rw [hc, Memory.edited_eq]
  cases hmade : Table.findEntry k made.reverse with
  | none => cases pending.get? k <;> simp
  | some c =>
    have hmem : (k, c) ∈ order := by
      rw [horder]
      exact List.mem_append_left _ (List.mem_reverse.1 (Table.mem_of_findEntry hmade))
    rw [Table.mem_entries_iff.1 (h.mem_iff.1 hmem)]
    exact .inr rfl

/-! ## The commit of an overlay -/

/-- The changes that wait in an overlay after these writes and deletions. -/
def Overlay.pending (below : Source σ) (es : List (Bytes × Change)) (base : σ) : Table Change :=
  ((Overlay.store below).apply es { base }).2.changes

theorem Overlay.get?_pending (below : Source σ) (es : List (Bytes × Change)) (base : σ) (k : Bytes) :
    (Overlay.pending below es base).get? k = Table.findEntry k es.reverse := by
  rw [pending, Overlay.apply_eq, Table.get?_foldl (f := some) fun t e k => t.get?_insert e.1 k e.2]
  cases Table.findEntry k es.reverse <;> rfl

/-- The order in which the changes of an overlay are committed does not matter. After any writes and
deletions the last one of each key is pending. A target that takes every change, in memory or a plain
store, reaches one state in every order of the commit, in which a pending key reads as it was last
changed and any other key as before; another commit, in whatever order, leaves that state. A target
that may refuse changes makes the commit fail exactly if it refuses one in its turn; each key then
holds its old value or its pending one, and a key that is not pending is unchanged. -/
theorem commit_order_irrelevant (below : Source σ) (base : σ) (es : List (Bytes × Change)) :
    let pending := Overlay.pending below es base
    let last := fun k => Table.findEntry k es.reverse
    (∀ k, pending.get? k = last k) ∧
      (∀ {τ : Type} (under : Source τ) (target : Overlay τ), ∃ final : Overlay τ,
        (∀ order, order.Perm pending.entries →
          (Overlay.store under).apply order target = (.ok (), final) ∧
            (Overlay.store under).apply order final = (.ok (), final)) ∧
          ∀ k, (final.get under k).1 = match last k with
            | some c => .ok c.read
            | none => (target.get under k).1) ∧
      (∀ target : PlainStore, target.faults = {} → ∃ final : PlainStore,
        (∀ order, order.Perm pending.entries →
          PlainStore.store.apply order target = (.ok (), final) ∧
            PlainStore.store.apply order final = (.ok (), final)) ∧
          ∀ k, (final.get k).1 = match last k with
            | some c => .ok c.read
            | none => (target.get k).1) ∧
      ∀ {τ : Type} {s : Store τ} {contents : τ → Memory}, s.Fallible contents → ∀ (target : τ) order,
        order.Perm pending.entries →
          let r := s.apply order target
          ((∃ e, r.1 = .error e) ↔ ∃ made k c rest cause, order = made ++ (k, c) :: rest ∧
            (s.apply made target).1 = .ok () ∧ (s.change k c (s.apply made target).2).1 = .error cause) ∧
          ∀ k, match last k with
            | some c => contents r.2 k = contents target k ∨ contents r.2 k = c.read
            | none => contents r.2 k = contents target k := by
  intro pending last
  have hlast : ∀ k, pending.get? k = last k := Overlay.get?_pending below es base
  refine ⟨hlast, ?_⟩
  simp only [← hlast]
  refine ⟨fun under target => Overlay.commit_eq under pending target,
    fun target hf => PlainStore.commit_eq pending hf, fun hs target order h => ?_⟩
  exact ⟨Store.apply_error_iff _ order target, hs.commit_holds h target⟩

/-- One key is written twice, one is deleted and one is written without a value. -/
def rewrites : List (Bytes × Change) :=
  [([0x61], .value (some [1])), ([0x62], .deleted), ([0x61], .value (some [2])), ([0x63], .value none)]

/-- The changes that wait after it, from the last key to the first. -/
def backwards : List (Bytes × Change) :=
  [([0x63], .value none), ([0x62], .deleted), ([0x61], .value (some [2]))]

/-- A store with two of these keys and another one, which fails in some way. -/
def shelf (faults : Faults) : PlainStore where
  values := Table.ofList [([0x61], some [9]), ([0x62], some [8]), ([0x64], some [7])]
  faults := faults

/-- The keys are found changed in a store that takes all changes; a store that takes one write only
keeps the old value of the key that comes last. -/
theorem commit_order_irrelevant_backwards :
    backwards.Perm (Overlay.pending Source.empty rewrites ()).entries ∧ (shelf {}).faults = {} ∧
      PlainStore.store.Fallible PlainStore.contents ∧
      (∃ final, PlainStore.store.apply backwards (shelf {}) = (.ok (), final) ∧
        PlainStore.store.apply backwards final = (.ok (), final) ∧
        (final.get [0x61]).1 = .ok (some [2]) ∧ (final.get [0x62]).1 = .ok none ∧
        (final.get [0x64]).1 = .ok (some [7])) ∧
      (∃ e, (PlainStore.store.apply backwards (shelf { writesLeft := some 1 })).1 = .error e) ∧
      (PlainStore.store.apply backwards (shelf { writesLeft := some 1 })).2.contents [0x64] = some [7] := by
  have horder : backwards.Perm (Overlay.pending Source.empty rewrites ()).entries := by decide
  obtain ⟨-, -, hplain, hrefusing⟩ := commit_order_irrelevant Source.empty () rewrites
  obtain ⟨final, hcommits, hreads⟩ := hplain (shelf {}) rfl
  obtain ⟨hfails, hholds⟩ := hrefusing PlainStore.store_fallible (shelf { writesLeft := some 1 }) backwards horder
  refine ⟨horder, rfl, PlainStore.store_fallible, ⟨final, (hcommits backwards horder).1, (hcommits backwards horder).2,
    hreads [0x61], hreads [0x62], hreads [0x64]⟩, ?_, hholds [0x64]⟩
  exact hfails.2 ⟨[([0x63], .value none), ([0x62], .deleted)], [0x61], .value (some [2]), [], _, rfl, rfl, rfl⟩

end CounterLedger
