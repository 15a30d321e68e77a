/-
Repair, byte by byte. Valid sequences of a string never overlap, because only their first bytes do not
continue a sequence and the first byte of a sequence says where it ends. So each byte is part of one
valid sequence or of none, wherever one begins to look; repair keeps the bytes of the first kind and
puts U+FFFD in the place of each of the others. It changes nothing exactly in encoded texts.
-/
import CounterLedger.Proofs.Text.Utf8

namespace CounterLedger.Utf8

/-! ## Sequences in a string -/

theorem Sequence.not_continues_head {a : UInt8} {t : Bytes} (h : Sequence (a :: t)) : ¬ Continues a := by
  rintro ⟨hlow, hhigh⟩
  cases h <;> omega

theorem Sequence.continues_tail {a : UInt8} {t : Bytes} (h : Sequence (a :: t)) : ∀ b ∈ t, Continues b := by
  intro b hb
  cases h with
  | one => cases hb
  | two _ _ h1 =>
    rw [List.mem_singleton] at hb
    exact hb ▸ h1
  | three _ _ _ _ h1 h2 =>
    simp only [List.mem_cons, List.not_mem_nil, or_false] at hb
    rcases hb with rfl | rfl
    · exact h1
    · exact h2
  | four _ _ _ _ h1 h2 h3 =>
    simp only [List.mem_cons, List.not_mem_nil, or_false] at hb
    rcases hb with rfl | rfl | rfl
    · exact h1
    · exact h2
    · exact h3

/-- At most one valid sequence begins a string. -/
theorem Sequence.length_eq {p q s t : Bytes} (hp : Sequence p) (hq : Sequence q) (h : p ++ s = q ++ t) :
    p.length = q.length := by
  rw [← sequenceLength_append hp s, h, sequenceLength_append hq]

/-- The byte at the position is part of a valid sequence that stands in the string. -/
def Covered (s : Bytes) (i : Nat) : Prop :=
  ∃ before q after, s = before ++ (q ++ after) ∧ Sequence q ∧ before.length ≤ i ∧ i < before.length + q.length

theorem covered_append_left {q : Bytes} (hq : Sequence q) (rest : Bytes) {i : Nat} (hi : i < q.length) :
    Covered (q ++ rest) i :=
  ⟨[], q, rest, rfl, hq, Nat.zero_le i, by simpa using hi⟩

theorem Covered.append_right {s : Bytes} {i : Nat} (h : Covered s i) (front : Bytes) :
    Covered (front ++ s) (front.length + i) := by
  obtain ⟨before, q, after, rfl, hq, hle, hlt⟩ := h
  refine ⟨front ++ before, q, after, (List.append_assoc ..).symm, hq, ?_, ?_⟩
  · rw [List.length_append]
    omega
  · rw [List.length_append]
    omega

/-- Behind a valid sequence the string is covered as if it stood alone. -/
theorem covered_append_iff {q : Bytes} (hq : Sequence q) (rest : Bytes) (i : Nat) :
    Covered (q ++ rest) (q.length + i) ↔ Covered rest i := by
  refine ⟨?_, fun h => h.append_right q⟩
  rintro ⟨before, p, after, heq, hp, hle, hlt⟩
  rcases Nat.lt_or_ge before.length q.length with hinside | hbehind
  · -- the sequence `p` would begin within `q`, but it reaches further than `q`
    exfalso
    obtain ⟨v, rfl⟩ := List.prefix_of_prefix_length_le (heq ▸ List.prefix_append before (p ++ after))
      (List.prefix_append q rest) hinside.le
    obtain _ | ⟨a, before⟩ := before
    · have hlength := hp.length_eq hq heq.symm
      rw [hlength, List.length_nil] at hlt
      omega
    · rw [List.append_assoc, List.append_cancel_left_eq] at heq
      obtain _ | ⟨c, v⟩ := v
      · rw [List.append_nil] at hinside
        exact Nat.lt_irrefl _ hinside
      · obtain ⟨b, t, rfl⟩ := List.exists_cons_of_ne_nil hp.ne_nil
        have hbc : c = b := (List.cons.inj heq).1
        exact hp.not_continues_head (hbc ▸ hq.continues_tail c (by simp))
  · obtain ⟨v, rfl⟩ := List.prefix_of_prefix_length_le (heq ▸ List.prefix_append q rest)
      (List.prefix_append before (p ++ after)) hbehind
    rw [List.append_assoc, List.append_cancel_left_eq] at heq
    rw [List.length_append] at hle hlt
    exact ⟨v, p, after, heq, hp, by omega, by omega⟩

/-- A byte with which no valid sequence begins is covered by none. -/
theorem not_covered_stray {b : UInt8} {rest : Bytes} (h : sequenceLength (b :: rest) = 0) :
    ¬ Covered (b :: rest) 0 := by
  rintro ⟨before, q, after, heq, hq, hle, -⟩
  obtain rfl := List.eq_nil_of_length_eq_zero (Nat.le_zero.1 hle)
  rw [heq, List.nil_append, sequenceLength_append hq] at h
  exact hq.ne_nil (List.eq_nil_of_length_eq_zero h)

theorem covered_stray_iff {b : UInt8} {rest : Bytes} (h : sequenceLength (b :: rest) = 0) (i : Nat) :
    Covered (b :: rest) (i + 1) ↔ Covered rest i := by
  constructor
  · rintro ⟨before, q, after, heq, hq, hle, hlt⟩
    obtain _ | ⟨a, before⟩ := before
    · exact absurd ⟨[], q, after, heq, hq, Nat.le_refl 0, by simpa using List.length_pos_iff.2 hq.ne_nil⟩
        (not_covered_stray h)
    · rw [List.length_cons] at hle hlt
      exact ⟨before, q, after, (List.cons.inj heq).2, hq, by omega, by omega⟩
  · intro hcovered
    rw [Nat.add_comm]
    exact hcovered.append_right [b]

/-! ## What repair does to each byte -/

/-- The second string is the first one with each byte that is part of no valid sequence replaced by
U+FFFD, and all other bytes as they are. -/
def Fixed (s t : Bytes) : Prop :=
  ∃ parts : List Bytes, parts.length = s.length ∧ t = parts.flatten ∧ ∀ i b, s[i]? = some b →
    (Covered s i → parts[i]? = some [b]) ∧ (¬ Covered s i → parts[i]? = some (String.utf8EncodeChar replacement))

/-- There is one way to fix a string. -/
theorem Fixed.unique {s t t' : Bytes} (h : Fixed s t) (h' : Fixed s t') : t = t' := by
  obtain ⟨parts, hlength, rfl, hparts⟩ := h
  obtain ⟨parts', hlength', rfl, hparts'⟩ := h'
  congr 1
  refine List.ext_getElem? fun i => ?_
  cases hb : s[i]? with
  | none =>
    rw [List.getElem?_eq_none_iff] at hb
    rw [List.getElem?_eq_none (by omega), List.getElem?_eq_none (by omega)]
  | some b =>
    by_cases hcovered : Covered s i
    · rw [(hparts i b hb).1 hcovered, (hparts' i b hb).1 hcovered]
    · rw [(hparts i b hb).2 hcovered, (hparts' i b hb).2 hcovered]

theorem Fixed.stray {b : UInt8} {rest t : Bytes} (h : sequenceLength (b :: rest) = 0) (ht : Fixed rest t) :
    Fixed (b :: rest) (String.utf8EncodeChar replacement ++ t) := by
  obtain ⟨parts, hlength, rfl, hparts⟩ := ht
  refine ⟨String.utf8EncodeChar replacement :: parts, by simp [hlength], by rw [List.flatten_cons], ?_⟩
  intro i c hc
  cases i with
  | zero => exact ⟨fun hcovered => absurd hcovered (not_covered_stray h), fun _ => rfl⟩
  | succ i =>
    rw [covered_stray_iff h, List.getElem?_cons_succ]
    rw [List.getElem?_cons_succ] at hc
    exact hparts i c hc

theorem Fixed.sequence {q rest t : Bytes} (hq : Sequence q) (ht : Fixed rest t) : Fixed (q ++ rest) (q ++ t) := by
  obtain ⟨parts, hlength, rfl, hparts⟩ := ht
  have hsingles : (q.map fun b => [b]).flatten = q := by
    rw [← List.flatMap_def, List.flatMap_singleton']
  refine ⟨q.map (fun b => [b]) ++ parts, by simp [hlength], by rw [List.flatten_append, hsingles], ?_⟩
  intro i b hb
  by_cases hi : i < q.length
  · have hcovered := covered_append_left hq rest hi
    rw [List.getElem?_append_left hi] at hb
    rw [List.getElem?_append_left (by simpa using hi), List.getElem?_map, hb]
    exact ⟨fun _ => rfl, fun hnot => absurd hcovered hnot⟩
  · obtain ⟨j, rfl⟩ := Nat.exists_eq_add_of_le (Nat.not_lt.1 hi)
    rw [List.getElem?_append_right (by omega), Nat.add_sub_cancel_left] at hb
    rw [covered_append_iff hq, List.getElem?_append_right (by simp), List.length_map, Nat.add_sub_cancel_left]
    exact hparts j b hb

theorem repair_stray {b : UInt8} {rest : Bytes} (h : sequenceLength (b :: rest) = 0) :
    repair (b :: rest) = String.utf8EncodeChar replacement ++ repair rest := by
  rw [repair, pieces_stray h, List.flatMap_cons]
  rfl

theorem repair_sequence {q : Bytes} (hq : Sequence q) (rest : Bytes) : repair (q ++ rest) = q ++ repair rest := by
  rw [repair, pieces_sequence hq, List.flatMap_cons, Piece.shown, encode_codePoint hq]
  rfl

theorem repair_fixed (s : Bytes) : Fixed s (repair s) := by
  induction hn : s.length using Nat.strong_induction_on generalizing s with
  | _ n ih =>
  obtain _ | ⟨b, rest⟩ := s
  · exact ⟨[], rfl, rfl, fun i b hb => by cases hb⟩
  cases hl : sequenceLength (b :: rest) with
  | zero =>
    rw [repair_stray hl]
    exact (ih rest.length (by simp [← hn]) rest rfl).stray hl
  | succ k =>
    have hlt : ((b :: rest).drop (k + 1)).length < n := by
      rw [← hn, List.length_drop, List.length_cons]
      omega
    have hrest := ih _ hlt _ rfl
    rw [← List.take_append_drop (k + 1) (b :: rest), repair_sequence (sequence_take hl)]
    exact hrest.sequence (sequence_take hl)

/-- Repair fixes every string, and nothing else does. -/
theorem fixed_iff {s t : Bytes} : Fixed s t ↔ t = repair s :=
  ⟨fun h => h.unique (repair_fixed s), fun h => h ▸ repair_fixed s⟩

/-! ## Valid texts -/

/-- The string is made of encoded characters. -/
def Valid (s : Bytes) : Prop := ∃ cs : List Char, s = cs.flatMap String.utf8EncodeChar

/-- Repair leaves exactly the encoded texts as they are. -/
theorem repair_eq_self_iff_valid (s : Bytes) : repair s = s ↔ Valid s := by
  constructor
  · intro h
    exact ⟨(pieces s).map Piece.shown, by rw [← repair_eq, h]⟩
  · rintro ⟨cs, rfl⟩
    rw [repair, pieces_flatMap_encode, List.flatMap_map]
    rfl

end CounterLedger.Utf8
