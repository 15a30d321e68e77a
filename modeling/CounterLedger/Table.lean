/-
Tables from byte strings to values. The entries are kept in ascending order of their keys, so two
tables with the same look-ups are equal and walking a table visits its keys in byte order.
-/
import CounterLedger.Bytes

namespace CounterLedger

/-- A finite map keyed by byte strings. -/
structure Table (α : Type) where
  /-- The entries, in strictly ascending order of their keys. -/
  entries : List (Bytes × α)
  sorted : entries.Pairwise (fun a b => a.1 < b.1)

namespace Table

variable {α β : Type}

/-- Puts an entry at its place, over an entry of the same key. -/
def insertEntry (k : Bytes) (v : α) : List (Bytes × α) → List (Bytes × α)
  | [] => [(k, v)]
  | e :: rest =>
    match k.order e.1 with
    | .lt => (k, v) :: e :: rest
    | .eq => (k, v) :: rest
    | .gt => e :: insertEntry k v rest

/-- The value of the first entry with the key. -/
def findEntry (k : Bytes) : List (Bytes × α) → Option α
  | [] => none
  | e :: rest => if e.1 = k then some e.2 else findEntry k rest

theorem mem_insertEntry {k : Bytes} {v : α} {a : Bytes × α} {l : List (Bytes × α)}
    (h : a ∈ insertEntry k v l) : a = (k, v) ∨ a ∈ l := by
  induction l with
  | nil => simpa [insertEntry] using h
  | cons e rest ih =>
    rw [insertEntry] at h
    split at h
    · simpa using h
    · rcases List.mem_cons.1 h with h | h
      · exact Or.inl h
      · exact Or.inr (List.mem_cons_of_mem _ h)
    · rcases List.mem_cons.1 h with h | h
      · exact Or.inr (h ▸ List.mem_cons_self)
      · rcases ih h with h | h
        · exact Or.inl h
        · exact Or.inr (List.mem_cons_of_mem _ h)

theorem sorted_insertEntry (k : Bytes) (v : α) {l : List (Bytes × α)}
    (h : l.Pairwise (fun a b => a.1 < b.1)) :
    (insertEntry k v l).Pairwise (fun a b => a.1 < b.1) := by
  induction l with
  | nil => simp [insertEntry]
  | cons e rest ih =>
    have ⟨he, hr⟩ := List.pairwise_cons.1 h
    rw [insertEntry]
    split
    · rename_i hlt
      refine List.pairwise_cons.2 ⟨?_, h⟩
      intro a ha
      rcases List.mem_cons.1 ha with rfl | ha
      · exact Bytes.order_eq_lt.1 hlt
      · exact List.lt_trans (Bytes.order_eq_lt.1 hlt) (he a ha)
    · rename_i heq
      exact List.pairwise_cons.2 ⟨fun a ha => Bytes.order_eq_eq.1 heq ▸ he a ha, hr⟩
    · rename_i hgt
      refine List.pairwise_cons.2 ⟨?_, ih hr⟩
      intro a ha
      rcases mem_insertEntry ha with rfl | ha
      · exact Bytes.order_eq_gt.1 hgt
      · exact he a ha

/-- The table without entries. -/
def empty : Table α := ⟨[], List.Pairwise.nil⟩

instance : Inhabited (Table α) := ⟨empty⟩

/-- The value of a key, if it has one. -/
def get? (t : Table α) (k : Bytes) : Option α := findEntry k t.entries

/-- Gives the key a value, in place of the one it had. -/
def insert (t : Table α) (k : Bytes) (v : α) : Table α :=
  ⟨insertEntry k v t.entries, sorted_insertEntry k v t.sorted⟩

/-- Takes the key out of the table. -/
def erase (t : Table α) (k : Bytes) : Table α :=
  ⟨t.entries.filter (fun e => e.1 ≠ k), t.sorted.filter _⟩

/-- The number of keys. -/
def size (t : Table α) : Nat := t.entries.length

/-- Whether the key has a value. -/
def contains (t : Table α) (k : Bytes) : Bool := (t.get? k).isSome

/-- Changes every value. -/
def mapValues (f : α → β) (t : Table α) : Table β :=
  ⟨t.entries.map (fun e => (e.1, f e.2)), List.pairwise_map.2 t.sorted⟩

/-- The table of a list of entries, in which the last one of a key counts. -/
def ofList (l : List (Bytes × α)) : Table α := l.foldl (fun t e => t.insert e.1 e.2) empty

/-! ## Look-up -/

theorem findEntry_insertEntry (k k' : Bytes) (v : α) (l : List (Bytes × α)) :
    findEntry k' (insertEntry k v l) = if k = k' then some v else findEntry k' l := by
  induction l with
  | nil => simp [insertEntry, findEntry]
  | cons e rest ih =>
    rw [insertEntry]
    split
    · simp [findEntry]
    · rename_i heq
      rw [Bytes.order_eq_eq] at heq
      subst heq
      by_cases hk : e.1 = k' <;> simp [findEntry, hk]
    · rename_i hgt
      by_cases hk : e.1 = k'
      · have : ¬ k = k' := fun h => by
          rw [Bytes.order_eq_gt, h, hk] at hgt
          exact List.lt_irrefl _ hgt
        simp [findEntry, hk, this]
      · simp [findEntry, hk, ih]

theorem findEntry_filter (k k' : Bytes) (l : List (Bytes × α)) :
    findEntry k' (l.filter (fun e => e.1 ≠ k)) = if k = k' then none else findEntry k' l := by
  induction l with
  | nil => simp [findEntry]
  | cons e rest ih =>
    by_cases he : e.1 = k
    · by_cases hk : k = k' <;> simp_all [findEntry]
    · by_cases hk : k = k'
      · simp_all [findEntry]
      · by_cases hk' : e.1 = k' <;> simp_all [findEntry]

@[simp] theorem get?_empty (k : Bytes) : (empty : Table α).get? k = none := rfl

@[simp] theorem get?_insert (t : Table α) (k k' : Bytes) (v : α) :
    (t.insert k v).get? k' = if k = k' then some v else t.get? k' :=
  findEntry_insertEntry k k' v t.entries

@[simp] theorem get?_erase (t : Table α) (k k' : Bytes) :
    (t.erase k).get? k' = if k = k' then none else t.get? k' :=
  findEntry_filter k k' t.entries

end Table

end CounterLedger
