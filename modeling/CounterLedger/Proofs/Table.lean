/-
Tables by their look-ups. The entries of a table are the pairs of its keys with their values, so two
tables with the same look-ups are equal. Of entries that are put into a table one after the other,
the last one of a key counts; where no key stands twice their order does not matter.
-/
import CounterLedger.Table
import Mathlib.Data.List.Nodup

namespace CounterLedger.Table

variable {α : Type} {k : Bytes} {v : α} {l l' : List (Bytes × α)}

/-! ## Entries -/

theorem mem_of_findEntry (h : findEntry k l = some v) : (k, v) ∈ l := by
  induction l with
  | nil => cases h
  | cons e rest ih =>
    rw [findEntry] at h
    split at h
    · rename_i hk
      injection h with hv
      subst hk hv
      exact List.mem_cons_self
    · exact List.mem_cons_of_mem _ (ih h)

theorem findEntry_eq_some_iff (hl : (l.map Prod.fst).Nodup) : findEntry k l = some v ↔ (k, v) ∈ l := by
  refine ⟨mem_of_findEntry, fun h => ?_⟩
  induction l with
  | nil => cases h
  | cons e rest ih =>
    obtain ⟨hfresh, hrest⟩ := List.nodup_cons.1 hl
    rw [findEntry]
    rcases List.mem_cons.1 h with rfl | h
    · exact if_pos rfl
    · -- the key stands further back, so it is not the first one
      have hne : e.1 ≠ k := fun he => hfresh (he ▸ List.mem_map_of_mem (f := Prod.fst) h)
      rw [if_neg hne]
      exact ih hrest h

theorem findEntry_append (k : Bytes) (l l' : List (Bytes × α)) :
    findEntry k (l ++ l') = (findEntry k l).or (findEntry k l') := by
  induction l with
  | nil => rfl
  | cons e rest ih =>
    by_cases h : e.1 = k
    · simp [findEntry, h]
    · simp [findEntry, h, ih]

theorem findEntry_perm (h : l.Perm l') (hl : (l.map Prod.fst).Nodup) (k : Bytes) :
    findEntry k l = findEntry k l' := by
  have hl' : (l'.map Prod.fst).Nodup := (h.map Prod.fst).nodup_iff.1 hl
  refine Option.ext fun v => ?_
  rw [findEntry_eq_some_iff hl, findEntry_eq_some_iff hl', h.mem_iff]

/-- A list in ascending order of its keys is known by its members. -/
theorem eq_of_ascending {β : Type} {key : β → Bytes} {l l' : List β} (h : l.Pairwise fun a b => key a < key b)
    (h' : l'.Pairwise fun a b => key a < key b) (hmem : ∀ b, b ∈ l ↔ b ∈ l') : l = l' := by
  have hne : ∀ a b : β, key a < key b → a ≠ b := fun a b hlt he => List.lt_irrefl _ (he ▸ hlt)
  have hperm := (List.perm_ext_iff_of_nodup (h.imp (hne _ _)) (h'.imp (hne _ _))).2 hmem
  exact hperm.eq_of_pairwise (fun a b _ _ hab hba => absurd hba (List.lt_asymm hab)) h h'

theorem nodup_keys_of_sorted (h : l.Pairwise (fun a b => a.1 < b.1)) : (l.map Prod.fst).Nodup := by
  refine List.pairwise_map.2 (h.imp ?_)
  intro a b hlt he
  rw [he] at hlt
  exact List.lt_irrefl _ hlt

theorem mem_entries_iff {t : Table α} : (k, v) ∈ t.entries ↔ t.get? k = some v :=
  (findEntry_eq_some_iff (nodup_keys_of_sorted t.sorted)).symm

theorem ext_get? {t u : Table α} (h : ∀ k, t.get? k = u.get? k) : t = u := by
  have heq : t.entries = u.entries := eq_of_ascending t.sorted u.sorted fun e => by
    rw [mem_entries_iff (k := e.1), mem_entries_iff (k := e.1), h]
  obtain ⟨entries, _⟩ := t
  obtain ⟨entries', _⟩ := u
  subst heq
  rfl

/-! ## Steps on one key each -/

section Steps

variable {γ : Type} {step : Table α → Bytes × γ → Table α} {f : γ → Option α}
  (hstep : ∀ t e k, (step t e).get? k = if e.1 = k then f e.2 else t.get? k)

include hstep

theorem get?_foldl (l : List (Bytes × γ)) (t : Table α) (k : Bytes) :
    (l.foldl step t).get? k = (findEntry k l.reverse).elim (t.get? k) f := by
  induction l generalizing t with
  | nil => rfl
  | cons e rest ih =>
    rw [List.foldl_cons, ih, hstep, List.reverse_cons, findEntry_append]
    cases findEntry k rest.reverse with
    | some c => rfl
    | none => by_cases h : e.1 = k <;> simp [findEntry, h]

/-- Steps on different keys lead to the same table in any order. -/
theorem foldl_perm {l l' : List (Bytes × γ)} (h : l.Perm l') (hl : (l.map Prod.fst).Nodup) (t : Table α) :
    l.foldl step t = l'.foldl step t := by
  have hreverse : l.reverse.Perm l'.reverse := (l.reverse_perm.trans h).trans l'.reverse_perm.symm
  have hnodup : (l.reverse.map Prod.fst).Nodup := by rwa [List.map_reverse, List.nodup_reverse]
  refine ext_get? fun k => ?_
  rw [get?_foldl hstep, get?_foldl hstep, findEntry_perm hreverse hnodup]

/-- Steps that set their keys once set nothing new when they are taken again. -/
theorem foldl_again (l : List (Bytes × γ)) (t : Table α) : l.foldl step (l.foldl step t) = l.foldl step t := by
  refine ext_get? fun k => ?_
  rw [get?_foldl hstep, get?_foldl hstep]
  cases findEntry k l.reverse <;> rfl

end Steps

theorem get?_ofList (hl : (l.map Prod.fst).Nodup) (k : Bytes) : (ofList l).get? k = findEntry k l := by
  have hnodup : (l.reverse.map Prod.fst).Nodup := by rwa [List.map_reverse, List.nodup_reverse]
  rw [ofList, get?_foldl (f := some) fun t e k => get?_insert t e.1 k e.2,
    findEntry_perm l.reverse_perm hnodup]
  cases findEntry k l <;> rfl

theorem ofList_perm (h : l.Perm l') (hl : (l.map Prod.fst).Nodup) : ofList l = ofList l' :=
  foldl_perm (f := some) (fun t e k => get?_insert t e.1 k e.2) h hl empty

end CounterLedger.Table
