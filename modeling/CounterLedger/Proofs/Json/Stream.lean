/-
Reading from the front of a stream, and values as they are written. The first value of a stream ends
where a document ends that has nothing behind it, or a closing mark. The members of an object that
are kept as they are written are texts of their values, and a text of a value, read by itself as a
stream, gives this value; only a null in its place is refused.
-/
import CounterLedger.Json.Field
import CounterLedger.Proofs.Json.Grammar
import CounterLedger.Proofs.Text.Utf8

namespace CounterLedger

namespace Blank

/-- A byte that writes no blank character is not cut off. -/
theorem mem_trim {s : Bytes} {b : UInt8} (h : b ∈ s) (hascii : b.toNat < 0x80)
    (hb : ∀ c : Char, c.toNat = b.toNat → isBlank c = false) : b ∈ trim s := by
  rw [← Utf8.flatMap_bytes_pieces s] at h
  obtain ⟨p, hp, hbp⟩ := List.mem_flatMap.1 h
  have hkept : isBlankPiece p = false := by
    cases p with
    | stray b' => rfl
    | char c =>
      rcases Utf8.byte_of_mem_encode hbp with hc | hc
      · exact hb c hc.symm
      · omega
  have hdrop {ps : List Utf8.Piece} (hps : p ∈ ps) : p ∈ ps.dropWhile isBlankPiece := by
    rw [← List.takeWhile_append_dropWhile (p := isBlankPiece) (l := ps), List.mem_append] at hps
    rcases hps with hfront | hrest
    · have hblank := List.mem_takeWhile_imp hfront
      rw [hkept] at hblank
      cases hblank
    · exact hrest
  exact List.mem_flatMap.2 ⟨p, List.mem_reverse.2 (hdrop (List.mem_reverse.2 (hdrop hp))), hbp⟩

end Blank

namespace Json

open Grammar

/-- A text with a printed byte that null does not have is not a bare null, whatever is around it. -/
theorem trim_ne_null {s : Bytes} {b : UInt8} (h : b ∈ s) (hprinted : 0x20 < b.toNat ∧ b.toNat < 0x7f)
    (hnull : b ∉ utf8 "null") : Blank.trim s ≠ utf8 "null" := by
  have hblank (c : Char) (hc : c.toNat = b.toNat) : Blank.isBlank c = false := by
    simp only [Blank.isBlank, hc, Bool.or_eq_false_iff, Bool.and_eq_false_iff, decide_eq_false_iff_not]
    omega
  intro he
  have hmem := Blank.mem_trim h (by omega) hblank
  rw [he] at hmem
  exact hnull hmem

/-! ## The first value of a stream -/

/-- Nothing, or a closing bracket or brace and anything behind it. -/
def Closed (s : Bytes) : Prop := ∀ b ∈ s.head?, b = 0x5d ∨ b = 0x7d

theorem closed_nil : Closed [] := fun _ hb => by cases hb

theorem closed_cons {b : UInt8} {s : Bytes} : Closed (b :: s) ↔ b = 0x5d ∨ b = 0x7d := by
  constructor
  · intro h
    exact h b rfl
  · intro h b' hb'
    cases hb'
    exact h

theorem more_eq_false_iff (s : Bytes) : more s = false ↔ Closed (skipBlanks s) := by
  unfold more
  cases skipBlanks s with
  | nil => exact iff_of_true rfl closed_nil
  | cons b rest =>
    rw [closed_cons]
    by_cases h : b = 0x5d
    · simp [h]
    · simp [h]

theorem Closed.stops {s : Bytes} (h : Closed s) : Stops s := by
  intro b hb
  exact .inr (.inr (h b hb))

theorem Closed.skipBlanks {s : Bytes} (h : Closed s) : skipBlanks s = s := by
  cases s with
  | nil => rfl
  | cons b s =>
    refine skipBlanks_cons ?_ s
    rcases closed_cons.1 h with rfl | rfl <;> rfl

/-- The reader takes a document from the front of a stream, and leaves the blanks after it. -/
theorem first_document {doc tail : Bytes} {v : Json} (h : Document doc v) (htail : Closed tail) :
    ∃ w, Blanks w ∧ first (doc ++ tail) = some (v, w ++ tail) := by
  obtain ⟨w, t, w', rfl, hw, ht, hw'⟩ := h
  refine ⟨w', hw', ?_⟩
  have hassoc : w ++ (t ++ w') ++ tail = w ++ (t ++ (w' ++ tail)) := by simp only [List.append_assoc]
  rw [hassoc]
  refine value_complete _ _ w t v (w' ++ tail) hw ht ?_ (htail.stops.blanks hw')
  simp only [List.length_append]
  omega

/-- The first value of a stream, if no more data is reported behind it, is that of a document which
ends there or before a closing mark. -/
theorem first_iff (s : Bytes) (v : Json) :
    (∃ rest, first s = some (v, rest) ∧ more rest = false) ↔
      ∃ doc tail, s = doc ++ tail ∧ Document doc v ∧ Closed tail := by
  constructor
  · rintro ⟨rest, hfirst, hmore⟩
    obtain ⟨w, t, rfl, hw, ht⟩ := value_sound _ _ _ _ _ hfirst
    -- the blanks that are skipped belong to the document
    obtain ⟨w', hrest, hw'⟩ := exists_blanks rest
    refine ⟨w ++ (t ++ w'), skipBlanks rest, ?_, ⟨w, t, w', rfl, hw, ht, hw'⟩, (more_eq_false_iff rest).1 hmore⟩
    simp only [List.append_assoc]
    rw [← hrest]
  · rintro ⟨doc, tail, rfl, hdoc, htail⟩
    obtain ⟨w, hw, hfirst⟩ := first_document hdoc htail
    refine ⟨w ++ tail, hfirst, (more_eq_false_iff _).2 ?_⟩
    rw [skipBlanks_append hw, htail.skipBlanks]
    exact htail

/-- A document with a closing mark behind it is no document. -/
theorem not_document_closed {doc tail : Bytes} {b : UInt8} {v v' : Json} (h : Document doc v)
    (hb : b = 0x5d ∨ b = 0x7d) : ¬ Document (doc ++ b :: tail) v' := by
  intro h'
  -- the reader would leave the mark, and would leave blanks only
  obtain ⟨w, -, hfirst⟩ := first_document h (closed_cons.2 hb)
  obtain ⟨w', hw', hfirst'⟩ := first_document h' closed_nil
  rw [List.append_nil, List.append_nil, hfirst] at hfirst'
  obtain ⟨-, rfl⟩ := Prod.mk.inj (Option.some.inj hfirst')
  have hblank : isBlank b = true := hw' b (by simp)
  rcases hb with rfl | rfl <;> cases hblank

theorem readStream_eq_ok_iff {α : Type} (read : Json → Except ReadError α) (s : Bytes) (r : α) :
    readStream read s = .ok r ↔
      Blank.trim s ≠ utf8 "null" ∧ ∃ doc tail v, s = doc ++ tail ∧ Document doc v ∧ Closed tail ∧ read v = .ok r := by
  unfold readStream
  split_ifs with hnull
  · exact ⟨fun h => (by cases h), fun h => absurd hnull h.1⟩
  constructor
  · intro h
    refine ⟨hnull, ?_⟩
    split at h
    · cases h
    · rename_i v rest hfirst
      split at h
      · cases h
      · rename_i r' hread
        split_ifs at h with hmore
        cases h
        obtain ⟨doc, tail, hs, hdoc, htail⟩ := (first_iff s v).1 ⟨rest, hfirst, Bool.eq_false_iff.2 hmore⟩
        exact ⟨doc, tail, v, hs, hdoc, htail, hread⟩
  · rintro ⟨-, doc, tail, v, hs, hdoc, htail, hread⟩
    obtain ⟨rest, hfirst, hmore⟩ := (first_iff s v).2 ⟨doc, tail, hs, hdoc, htail⟩
    simp only [hfirst, hread, hmore, Bool.false_eq_true, if_false]

/-- The text of an object has a brace. -/
theorem brace_mem_of_document {doc : Bytes} {ms : List (Bytes × Json)} (h : Document doc (.object ms)) :
    0x7b ∈ doc := by
  obtain ⟨w, t, w', rfl, -, ht, -⟩ := h
  have hbrace : 0x7b ∈ t := by
    rcases (ht : Value (9999 + 1) t _) with hscalar | hcontainer
    · cases hscalar
    · cases hcontainer <;> exact List.mem_cons_self
  exact List.mem_append_right _ (List.mem_append_left _ hbrace)

/-! ## The text of a value -/

namespace Grammar

theorem Separated.mono {α : Type} {item item' : Bytes → α → Prop} (hitem : ∀ s a, item s a → item' s a) {t : Bytes}
    {as : List α} (h : Separated item t as) : Separated item' t as := by
  induction h with
  | last ha => exact .last (hitem _ _ ha)
  | more ha _ ih => exact .more (hitem _ _ ha) ih

theorem Container.mono {value value' : Bytes → Json → Prop} (hvalue : ∀ s v, value s v → value' s v) {t : Bytes}
    {v : Json} (h : Container value t v) : Container value' t v := by
  have hpadded (s : Bytes) (v : Json) (h : Padded value s v) : Padded value' s v := by
    obtain ⟨w, t, w', rfl, hw, ht, hw'⟩ := h
    exact ⟨w, t, w', rfl, hw, hvalue _ _ ht, hw'⟩
  cases h with
  | noItems hw => exact .noItems hw
  | items hvs => exact .items (hvs.mono hpadded)
  | noMembers hw => exact .noMembers hw
  | members hms =>
    refine .members (hms.mono fun s m h => ?_)
    obtain ⟨w, n, w', t, rfl, hw, hn, hw', ht⟩ := h
    exact ⟨w, n, w', t, rfl, hw, hn, hw', hpadded _ _ ht⟩

/-- A value may be read with more containers open than it needs. -/
theorem Value.mono {depth depth' : Nat} (hle : depth ≤ depth') {s : Bytes} {v : Json} (h : Value depth s v) :
    Value depth' s v := by
  induction depth generalizing depth' s v with
  | zero =>
    cases depth' with
    | zero => exact h
    | succ depth' => exact .inl h
  | succ depth ih =>
    obtain ⟨depth', rfl⟩ := Nat.exists_eq_add_of_le' (show 1 ≤ depth' by omega)
    rcases h with hscalar | hcontainer
    · exact .inl hscalar
    · exact .inr (hcontainer.mono fun s v => ih (by omega))

theorem Scalar.trim_ne_null {s : Bytes} {v : Json} (h : Scalar s v) (hv : v ≠ .null) :
    Blank.trim s ≠ utf8 "null" := by
  cases h with
  | null => exact absurd rfl hv
  | yes => decide
  | no => decide
  | string => exact Json.trim_ne_null List.mem_cons_self (by decide) (by decide)
  | number hn =>
    obtain ⟨b, t, rfl, hb⟩ := hn.head
    have hrange : 0x2d ≤ b.toNat ∧ b.toNat ≤ 0x39 := by
      rcases hb with hb | rfl
      · simp only [Numeral.isDigit, Bool.and_eq_true, decide_eq_true_eq, UInt8.le_iff_toNat_le] at hb
        exact ⟨Nat.le_trans (by decide) hb.1, hb.2⟩
      · decide
    have hletters : ∀ c ∈ utf8 "null", 0x6c ≤ c.toNat := by decide +kernel
    refine Json.trim_ne_null List.mem_cons_self (by omega) fun hmem => ?_
    have hletter := hletters b hmem
    omega

/-- The text of a value other than null is no bare null. -/
theorem Value.trim_ne_null {depth : Nat} {s : Bytes} {v : Json} (h : Value depth s v) (hv : v ≠ .null) :
    Blank.trim s ≠ utf8 "null" := by
  cases depth with
  | zero => exact Scalar.trim_ne_null h hv
  | succ depth =>
    rcases h with h | h
    · exact h.trim_ne_null hv
    · cases h <;> exact Json.trim_ne_null List.mem_cons_self (by decide) (by decide)

theorem Value.eq_null {depth : Nat} {s : Bytes} (h : Value depth s .null) : s = utf8 "null" := by
  have hscalar (h : Scalar s .null) : s = utf8 "null" := by
    cases h
    rfl
  cases depth with
  | zero => exact hscalar h
  | succ depth =>
    rcases h with h | h
    · exact hscalar h
    · cases h

end Grammar

/-- The text of a value, read as a stream, gives the value; a null in its place is refused. -/
theorem readStream_value {α : Type} (read : Json → Except ReadError α) {depth : Nat} (hdepth : depth ≤ maxDepth)
    {s : Bytes} {v : Json} (h : Value depth s v) :
    (v = .null → readStream read s = .error .nullRecord) ∧ (v ≠ .null → readStream read s = read v) := by
  constructor
  · rintro rfl
    rw [h.eq_null]
    exact if_pos (by decide)
  · intro hv
    -- the reader takes the whole text, and there is no more behind it
    have hdoc : Document s v := ⟨[], s, [], by simp, by simp [Blanks], h.mono hdepth, by simp [Blanks]⟩
    obtain ⟨w, hw, hfirst⟩ := first_document hdoc closed_nil
    rw [List.append_nil, List.append_nil] at hfirst
    have hmore : more w = false := by
      rw [more_eq_false_iff, (blanks_iff w).1 hw]
      exact closed_nil
    rw [readStream, if_neg (h.trim_ne_null hv), hfirst]
    simp only [hmore, Bool.false_eq_true, if_false]
    cases read v <;> rfl

/-! ## Members as they are written -/

/-- What the reader takes from the front is written there, and is the text of the value. -/
theorem written_value {n depth : Nat} {s rest : Bytes} {v : Json} (h : value n depth s = some (v, rest)) :
    ∃ t, written n depth s = some (t, rest) ∧ Value depth t.text v := by
  obtain ⟨w, t, rfl, hw, ht⟩ := value_sound _ _ _ _ _ h
  obtain ⟨b, t', rfl, hb⟩ := ht.head
  refine ⟨⟨skipBlanks (w ++ ((b :: t') ++ rest)), rest⟩, by rw [written, h, Option.map_some], ?_⟩
  rw [Span.text, skipBlanks_append hw, List.cons_append, skipBlanks_cons hb.1, ← List.cons_append]
  simp only [List.length_append, Nat.add_sub_cancel, List.take_left]
  exact ht

/-- Members that are read in two ways, of which the second takes as much as the first from the front. -/
theorem members_related {α β : Type} {item : Bytes → Option (α × Bytes)} {item' : Bytes → Option (β × Bytes)}
    {R : α → β → Prop}
    (hitem : ∀ s a rest, item s = some (a, rest) → ∃ b, item' s = some (b, rest) ∧ R a b) {n : Nat}
    {acc as : List (Bytes × α)} {acc' : List (Bytes × β)} {s rest : Bytes}
    (hacc : List.Forall₂ (fun m m' => m.1 = m'.1 ∧ R m.2 m'.2) acc acc')
    (h : members item n acc s = some (as, rest)) :
    ∃ bs, members item' n acc' s = some (bs, rest) ∧
      List.Forall₂ (fun m m' => m.1 = m'.1 ∧ R m.2 m'.2) as bs := by
  induction n generalizing acc acc' s with
  | zero => cases h
  | succ n ih =>
    rw [members] at h ⊢
    split at h
    · cases h
    · rename_i key r hname
      split at h
      · cases h
      · rename_i a r' ha
        obtain ⟨b, hb, hab⟩ := hitem _ _ _ ha
        have hacc' := List.Forall₂.cons (R := fun m m' => m.1 = m'.1 ∧ R m.2 m'.2) (a := (key, a)) (b := (key, b))
          ⟨rfl, hab⟩ hacc
        simp only [hb]
        split at h
        · exact ih hacc' h
        · cases h
          exact ⟨_, rfl, List.forall₂_reverse_iff.2 hacc'⟩
        · cases h

theorem objectMembers_related {α β : Type} {item : Bytes → Option (α × Bytes)} {item' : Bytes → Option (β × Bytes)}
    {R : α → β → Prop}
    (hitem : ∀ s a rest, item s = some (a, rest) → ∃ b, item' s = some (b, rest) ∧ R a b) {n : Nat}
    {as : List (Bytes × α)} {s rest : Bytes} (h : objectMembers item n s = some (as, rest)) :
    ∃ bs, objectMembers item' n s = some (bs, rest) ∧
      List.Forall₂ (fun m m' => m.1 = m'.1 ∧ R m.2 m'.2) as bs := by
  unfold objectMembers at h ⊢
  split at h
  · cases h
    exact ⟨[], rfl, .nil⟩
  · exact members_related hitem .nil h

theorem arrayTail_array {item : Bytes → Option (Json × Bytes)} {n : Nat} {s rest : Bytes} {v : Json}
    (h : arrayTail item n s = some (v, rest)) : ∃ vs, v = .array vs := by
  unfold arrayTail at h
  split at h
  · cases h
    exact ⟨[], rfl⟩
  · obtain ⟨⟨vs, r⟩, -, he⟩ := Option.map_eq_some_iff.1 h
    cases he
    exact ⟨vs, rfl⟩

/-- The members of an object are written with its names, each with a text of its value. -/
theorem writtenMembers_document {s : Bytes} {ms : List (Bytes × Json)} (h : document s = some (.object ms)) :
    List.Forall₂ (fun m t => m.1 = t.1 ∧ Value (maxDepth - 1) t.2.text m.2) ms (writtenMembers s) := by
  obtain ⟨rest, hfirst⟩ : ∃ rest, value s.length (9999 + 1) s = some (.object ms, rest) := by
    unfold document at h
    split at h
    · rename_i v rest hfirst
      split_ifs at h
      cases h
      exact ⟨rest, hfirst⟩
    · cases h
  unfold value at hfirst
  split at hfirst
  · obtain ⟨_, he⟩ := arrayTail_array hfirst
    cases he
  · rename_i r hopen
    obtain ⟨⟨ms', r'⟩, hmembers, he⟩ := Option.map_eq_some_iff.1 hfirst
    cases he
    have hitem : ∀ s' v rest, value s.length 9999 s' = some (v, rest) →
        ∃ t, written s.length 9999 s' = some (t, rest) ∧ Value 9999 t.text v := fun _ _ _ h => written_value h
    obtain ⟨ts, hwritten, hrelated⟩ :=
      objectMembers_related (R := fun v (t : Span) => Value 9999 t.text v) hitem hmembers
    have hts : writtenMembers s = ts := by
      simp only [writtenMembers, hopen, hwritten, maxDepth, Option.map_some, Option.getD_some]
    rw [hts]
    exact hrelated
  · obtain ⟨t, -, hscalar⟩ := scalar_sound hfirst
    cases hscalar

end Json

end CounterLedger
