/-
Walks of a bucket. The keys that begin with some bytes stand next to each other in ascending order,
from the first key that is not below these bytes on; so a scan, which starts there and stops at the
first key that begins otherwise, misses none of them. A walk calls its visitor on the entries one
after the other and ends with the first one on which the visitor fails.
-/
import CounterLedger.Database.Bucket
import CounterLedger.Proofs.Table

namespace CounterLedger

/-! ## Keys with a common start -/

theorem Bytes.not_lt_of_prefix {start k : Bytes} (h : start <+: k) : ¬ k < start := by
  obtain ⟨rest, rfl⟩ := h
  induction start with
  | nil => exact List.not_lt_nil _
  | cons b start ih =>
    rw [List.cons_append, List.cons_lt_cons_iff]
    rintro (hb | ⟨-, hlt⟩)
    · exact UInt8.lt_irrefl b hb
    · exact ih hlt

/-- Between some bytes and a key that begins with them there are only keys that begin with them. -/
theorem Bytes.prefix_of_between {start k k' : Bytes} (hk : ¬ k < start) (hlt : k < k') (h : start <+: k') :
    start <+: k := by
  obtain ⟨rest, rfl⟩ := h
  induction start generalizing k with
  | nil => exact List.nil_prefix
  | cons b start ih =>
    cases k with
    | nil => exact absurd (List.nil_lt_cons b start) hk
    | cons a k =>
      rw [List.cons_lt_cons_iff, not_or, not_and] at hk
      rw [List.cons_append, List.cons_lt_cons_iff] at hlt
      rcases hlt with hab | ⟨rfl, hlt⟩
      · exact absurd hab hk.1
      · exact List.cons_prefix_cons.2 ⟨rfl, ih (hk.2 rfl) hlt⟩

namespace Bucket

variable {τ : Type}

/-- The entries whose key begins with the given bytes. -/
def matching (b : Bucket) (start : Bytes) : List (Bytes × Payload) := b.entries.filter fun e => start.isPrefixOf e.1

theorem mem_matching_iff {b : Bucket} {start k : Bytes} {v : Payload} :
    (k, v) ∈ b.matching start ↔ b.get? k = some v ∧ start <+: k := by
  rw [matching, List.mem_filter, Table.mem_entries_iff, List.isPrefixOf_iff_prefix]

theorem sorted_matching (b : Bucket) (start : Bytes) : (b.matching start).Pairwise fun e e' => e.1 < e'.1 :=
  b.sorted.filter _

theorem matching_nil (b : Bucket) : b.matching [] = b.entries := by
  simp [matching]

theorem takeWhile_prefix_eq_filter {start : Bytes} {l : List (Bytes × Payload)}
    (hl : l.Pairwise fun e e' => e.1 < e'.1) (hstart : ∀ e ∈ l, ¬ e.1 < start) :
    l.takeWhile (fun e => start.isPrefixOf e.1) = l.filter fun e => start.isPrefixOf e.1 := by
  induction l with
  | nil => rfl
  | cons e rest ih =>
    obtain ⟨hfirst, hrest⟩ := List.pairwise_cons.1 hl
    by_cases h : start <+: e.1
    · simp only [List.isPrefixOf_iff_prefix, h, List.takeWhile_cons_of_pos, List.filter_cons_of_pos]
      rw [ih hrest fun e' he' => hstart e' (List.mem_cons_of_mem _ he')]
    · -- no later key begins with these bytes, or this one would as well
      have hnone : rest.filter (fun e => start.isPrefixOf e.1) = [] := by
        rw [List.filter_eq_nil_iff]
        intro e' he' hp
        exact h (Bytes.prefix_of_between (hstart e List.mem_cons_self) (hfirst e' he')
          (List.isPrefixOf_iff_prefix.1 hp))
      have hfalse : start.isPrefixOf e.1 = false := by rwa [← Bool.not_eq_true, List.isPrefixOf_iff_prefix]
      rw [List.takeWhile_cons, List.filter_cons, hfalse, hnone]
      rfl

/-- What a scan shows are all entries whose key begins with the given bytes. -/
theorem startingWith_eq_matching (b : Bucket) (start : Bytes) : b.startingWith start = b.matching start := by
  unfold startingWith matching
  have hsorted := b.sorted
  generalize b.entries = l at hsorted
  induction l with
  | nil => rfl
  | cons e rest ih =>
    obtain ⟨hfirst, hrest⟩ := List.pairwise_cons.1 hsorted
    by_cases h : e.1 < start
    · have hskip : start.isPrefixOf e.1 = false := by
        rw [← Bool.not_eq_true, List.isPrefixOf_iff_prefix]
        exact fun hp => Bytes.not_lt_of_prefix hp h
      rw [List.dropWhile_cons_of_pos (by simpa using h), List.filter_cons, hskip]
      exact ih hrest
    · rw [List.dropWhile_cons_of_neg (by simpa using h)]
      refine takeWhile_prefix_eq_filter hsorted fun e' he' hlt => ?_
      rcases List.mem_cons.1 he' with rfl | he'
      · exact h hlt
      · exact h (List.lt_trans (hfirst e' he') hlt)

-- nothing comes after the keys that begin with the last byte
example : startingWith (Table.ofList [([0xff], some [1]), ([0xfe, 0xff], none), ([0xff, 0xff], some [2])]) [0xff] =
    [([0xff], some [1]), ([0xff, 0xff], some [2])] := by decide

/-- A scan is a walk of the matching entries, and only the context of a failure is its own. -/
theorem scan_eq (b : Bucket) (start : Bytes) (f : Visitor τ) (t : τ) :
    b.scan start f t =
      ((visit f (b.matching start) t).1.mapError (.report .callback), (visit f (b.matching start) t).2) := by
  rw [scan, startingWith_eq_matching]
  rcases visit f (b.matching start) t with ⟨_ | _, s⟩ <;> rfl

/-! ## Calls of the visitor -/

/-- The visitor with a record of the entries it has been called on. -/
def Visitor.recorded (f : Visitor τ) : Visitor (τ × List (Bytes × Payload)) := fun k v s =>
  ((f k v s.1).1, (f k v s.1).2, s.2 ++ [(k, v)])

/-- The visitor succeeds on the entries one after the other, and they take it from one state to
another. -/
inductive Visitor.Accepts (f : Visitor τ) : List (Bytes × Payload) → τ → τ → Prop where
  | nil (t : τ) : Accepts f [] t t
  | cons {k : Bytes} {v : Payload} {rest : List (Bytes × Payload)} {t t' t'' : τ} :
      f k v t = (.ok (), t') → Accepts f rest t' t'' → Accepts f ((k, v) :: rest) t t''

/-- The record of the calls takes no part in the walk. -/
theorem visit_recorded (f : Visitor τ) (l calls : List (Bytes × Payload)) (t : τ) :
    visit f l t = ((visit f.recorded l (t, calls)).1, (visit f.recorded l (t, calls)).2.1) := by
  induction l generalizing t calls with
  | nil => rfl
  | cons e rest ih =>
    obtain ⟨k, v⟩ := e
    rcases h : f k v t with ⟨_ | _, t'⟩
    · simp only [visit, Visitor.recorded, h]
    · simp only [visit, Visitor.recorded, h]
      exact ih _ t'

/-- A walk calls the visitor on all entries in order, or up to the first one on which it fails. -/
theorem visit_cases (f : Visitor τ) (l calls : List (Bytes × Payload)) (t : τ) :
    (∃ t', f.Accepts l t t' ∧ visit f.recorded l (t, calls) = (.ok (), t', calls ++ l)) ∨
      ∃ made k v rest t₁ t₂ e, l = made ++ (k, v) :: rest ∧ f.Accepts made t t₁ ∧ f k v t₁ = (.error e, t₂) ∧
        visit f.recorded l (t, calls) = (.error e, t₂, calls ++ (made ++ [(k, v)])) := by
  induction l generalizing t calls with
  | nil => exact .inl ⟨t, .nil t, by simp [visit]⟩
  | cons e rest ih =>
    obtain ⟨k, v⟩ := e
    rcases h : f k v t with ⟨err | _, t'⟩
    · refine .inr ⟨[], k, v, rest, t, t', err, rfl, .nil t, h, ?_⟩
      simp [visit, Visitor.recorded, h]
    · have hvisit : visit f.recorded ((k, v) :: rest) (t, calls) =
          visit f.recorded rest (t', calls ++ [(k, v)]) := by
        simp only [visit, Visitor.recorded, h]
      rw [hvisit]
      rcases ih (calls ++ [(k, v)]) t' with ⟨t'', ha, hv⟩ | ⟨made, k', v', rest', t₁, t₂, err, rfl, ha, hf, hv⟩
      · exact .inl ⟨t'', .cons h ha, by rw [hv]; simp⟩
      · exact .inr ⟨(k, v) :: made, k', v', rest', t₁, t₂, err, rfl, .cons h ha, hf, by rw [hv]; simp⟩

/-- A scan is complete and exact. Its visitor, which may keep a state of any kind, is called on the
entries whose key begins with the given bytes, on each of them once and in ascending order of the
keys: on all of them, and then the scan succeeds, or up to the first one on which the visitor fails,
and then the scan fails with that error in its context. Where nothing is asked of the keys, the calls
are those of a walk through the whole bucket. -/
theorem scan_exact (b : Bucket) (start : Bytes) (f : Visitor τ) (t : τ) :
    let entries := b.matching start
    let ran := b.scan start f.recorded (t, [])
    (entries.Pairwise fun e e' => e.1 < e'.1) ∧
      (∀ k v, (k, v) ∈ entries ↔ b.get? k = some v ∧ start <+: k) ∧
      ((∃ t', f.Accepts entries t t' ∧ ran = (.ok (), t', entries)) ∨
        ∃ made k v rest t₁ t₂ e, entries = made ++ (k, v) :: rest ∧ f.Accepts made t t₁ ∧
          f k v t₁ = (.error e, t₂) ∧ ran = (.error (.report .callback e), t₂, made ++ [(k, v)])) ∧
      b.scan start f t = (ran.1, ran.2.1) ∧
      (∀ e, (Error.report .callback e).message = utf8 "callback failed: " ++ e.message) ∧
      (b.scan [] f.recorded (t, [])).2 = (b.forEach f.recorded (t, [])).2 := by
  intro entries ran
  have hran : ran = ((visit f.recorded entries (t, [])).1.mapError (.report .callback),
      (visit f.recorded entries (t, [])).2) := b.scan_eq start f.recorded (t, [])
  refine ⟨b.sorted_matching start, fun k v => mem_matching_iff, ?_, ?_, fun e => rfl, ?_⟩
  · rcases visit_cases f entries [] t with ⟨t', ha, hv⟩ | ⟨made, k, v, rest, t₁, t₂, e, he, ha, hf, hv⟩
    · exact .inl ⟨t', ha, by rw [hran, hv]; rfl⟩
    · exact .inr ⟨made, k, v, rest, t₁, t₂, e, he, ha, hf, by rw [hran, hv]; rfl⟩
  · rw [scan_eq, visit_recorded f _ [], hran]
  · rw [scan_eq, matching_nil, forEach]

end Bucket

end CounterLedger
