/-
UTF-8. The sequences that count as characters are exactly the encodings of characters, so a byte
string that consists of encoded characters splits into these characters. Hence a repaired string
is stable under repair, and repair changes exactly the strings that are not valid.
-/
import CounterLedger.Text.Utf8
import Mathlib.Tactic

namespace CounterLedger.Utf8

/-! ## Valid sequences -/

/-- A byte that continues a sequence. -/
def Continues (b : UInt8) : Prop := 0x80 ≤ b.toNat ∧ b.toNat < 0xc0

/-- The valid sequences: no overlong form, no surrogate, nothing above the last code point. -/
inductive Sequence : Bytes → Prop where
  | one {a : UInt8} : a.toNat < 0x80 → Sequence [a]
  | two {a b : UInt8} : 0xc2 ≤ a.toNat → a.toNat < 0xe0 → Continues b → Sequence [a, b]
  | three {a b c : UInt8} : 0xe0 ≤ a.toNat → a.toNat < 0xf0 → (a.toNat = 0xe0 → 0xa0 ≤ b.toNat) →
      (a.toNat = 0xed → b.toNat < 0xa0) → Continues b → Continues c → Sequence [a, b, c]
  | four {a b c d : UInt8} : 0xf0 ≤ a.toNat → a.toNat < 0xf5 → (a.toNat = 0xf0 → 0x90 ≤ b.toNat) →
      (a.toNat = 0xf4 → b.toNat < 0x90) → Continues b → Continues c → Continues d → Sequence [a, b, c, d]

theorem isContinuation_iff (b : UInt8) : isContinuation b = true ↔ Continues b := by
  simp only [isContinuation, Continues, Bool.and_eq_true, decide_eq_true_eq, UInt8.le_iff_toNat_le,
    UInt8.reduceToNat]
  omega

/-- A second byte with a bound of its own after two of the first bytes. -/
theorem second_iff (x y lo hi : UInt8) {a b : UInt8} (hlo : 0x80 ≤ lo.toNat) (hhi : hi.toNat < 0xc0) :
    ((if a = x then lo else 0x80) ≤ b ∧ b ≤ (if a = y then hi else 0xbf)) ↔
      (a.toNat = x.toNat → lo.toNat ≤ b.toNat) ∧ (a.toNat = y.toNat → b.toNat ≤ hi.toNat) ∧ Continues b := by
  have hbytes : (0x80 : UInt8).toNat = 0x80 ∧ (0xbf : UInt8).toNat = 0xbf := by decide
  simp only [UInt8.le_iff_toNat_le, UInt8.toNat_inj, Continues]
  by_cases hx : a = x
  · by_cases hy : a = y
    · rw [if_pos hx, if_pos hy]; grind
    · rw [if_pos hx, if_neg hy]; grind
  · by_cases hy : a = y
    · rw [if_neg hx, if_pos hy]; grind
    · rw [if_neg hx, if_neg hy]; grind

theorem sequenceLength_append {s : Bytes} (h : Sequence s) (rest : Bytes) :
    sequenceLength (s ++ rest) = s.length := by
  cases h with
  | one ha => simp [sequenceLength, UInt8.lt_iff_toNat_lt, ha]
  | two ha ha' hb =>
    simp only [List.cons_append, List.nil_append, sequenceLength, UInt8.lt_iff_toNat_lt, UInt8.reduceToNat]
    rw [if_neg (by omega), if_neg (by omega), if_pos ha', if_pos ((isContinuation_iff _).2 hb)]
    rfl
  | three ha ha' hlo hhi hb hc =>
    have hsecond := (second_iff 0xe0 0xed 0xa0 0x9f (by decide) (by decide)).2
      ⟨hlo, fun he => Nat.le_of_lt_succ (hhi he), hb⟩
    simp only [List.cons_append, List.nil_append, sequenceLength, UInt8.lt_iff_toNat_lt, UInt8.reduceToNat]
    rw [if_neg (by omega), if_neg (by omega), if_neg (by omega), if_pos ha']
    simp only [hsecond, (isContinuation_iff _).2 hc, decide_true, Bool.and_true, if_true]
    rfl
  | four ha ha' hlo hhi hb hc hd =>
    have hsecond := (second_iff 0xf0 0xf4 0x90 0x8f (by decide) (by decide)).2
      ⟨hlo, fun he => Nat.le_of_lt_succ (hhi he), hb⟩
    simp only [List.cons_append, List.nil_append, sequenceLength, UInt8.lt_iff_toNat_lt, UInt8.reduceToNat]
    rw [if_neg (by omega), if_neg (by omega), if_neg (by omega), if_neg (by omega), if_pos ha']
    simp only [hsecond, (isContinuation_iff _).2 hc, (isContinuation_iff _).2 hd, decide_true, Bool.and_true,
      if_true]
    rfl

/-- What the length of the first sequence spans is a valid sequence. -/
theorem sequence_take {s : Bytes} {n : Nat} (h : sequenceLength s = n + 1) : Sequence (s.take (n + 1)) := by
  revert h
  fun_cases sequenceLength s with
  | case1 => intro h; cases h
  | case2 a rest ha =>
    intro h
    obtain rfl : 0 = n := by omega
    exact .one (by simpa [UInt8.lt_iff_toNat_lt] using ha)
  | case3 => intro h; cases h
  | case4 a ha ha' hb x rest hx =>
    intro h
    obtain rfl : 1 = n := by omega
    simp only [UInt8.lt_iff_toNat_lt, UInt8.reduceToNat] at ha ha' hb
    exact .two (by omega) hb ((isContinuation_iff _).1 hx)
  | case7 a ha ha' hb hc x y rest low high hx =>
    intro h
    obtain rfl : 2 = n := by omega
    simp only [UInt8.lt_iff_toNat_lt, UInt8.reduceToNat, Bool.and_eq_true, decide_eq_true_eq,
      isContinuation_iff] at ha ha' hb hc hx
    obtain ⟨hlo, hhi, hxc⟩ := (second_iff 0xe0 0xed 0xa0 0x9f (by decide) (by decide)).1 hx.1
    exact .three (by omega) hc hlo (fun he => Nat.lt_succ_of_le (hhi he)) hxc hx.2
  | case10 a ha ha' hb hc hd x y z rest low high hx =>
    intro h
    obtain rfl : 3 = n := by omega
    simp only [UInt8.lt_iff_toNat_lt, UInt8.reduceToNat, Bool.and_eq_true, decide_eq_true_eq,
      isContinuation_iff] at ha ha' hb hc hd hx
    obtain ⟨hlo, hhi, hxc⟩ := (second_iff 0xf0 0xf4 0x90 0x8f (by decide) (by decide)).1 hx.1.1
    exact .four (by omega) hd hlo (fun he => Nat.lt_succ_of_le (hhi he)) hxc hx.1.2 hx.2
  | _ => intro h; cases h

/-- A character is written by a valid sequence. -/
theorem sequence_encode (c : Char) : Sequence (String.utf8EncodeChar c) := by
  have hc : c.toNat < 0xd800 ∨ (0xdfff < c.toNat ∧ c.toNat < 0x110000) := c.valid
  unfold String.utf8EncodeChar
  simp only [Char.toNat] at hc
  simp only
  generalize c.val.toNat = n at *
  split_ifs with h1 h2 h3
  · refine .one ?_
    rw [UInt8.toNat_ofNat']; omega
  · refine .two ?_ ?_ ⟨?_, ?_⟩ <;> rw [UInt8.toNat_ofNat'] <;> omega
  · refine .three ?_ ?_ ?_ ?_ ⟨?_, ?_⟩ ⟨?_, ?_⟩ <;> simp only [UInt8.toNat_ofNat'] <;> omega
  · refine .four ?_ ?_ ?_ ?_ ⟨?_, ?_⟩ ⟨?_, ?_⟩ ⟨?_, ?_⟩ <;> simp only [UInt8.toNat_ofNat'] <;> omega

/-- The number of a character can be read off its sequence. -/
theorem codePoint_encode (c : Char) : codePoint (String.utf8EncodeChar c) = c.toNat := by
  have hc : c.toNat < 0xd800 ∨ (0xdfff < c.toNat ∧ c.toNat < 0x110000) := c.valid
  unfold String.utf8EncodeChar
  simp only [Char.toNat] at *
  generalize c.val.toNat = n at *
  split_ifs with h1 h2 h3 <;> simp only [codePoint, UInt8.toNat_ofNat'] <;> omega

theorem encode_ascii {c : Char} (h : c.toNat < 0x80) : String.utf8EncodeChar c = [UInt8.ofNat c.toNat] := by
  unfold String.utf8EncodeChar
  exact if_pos (Nat.le_of_lt_succ h)

/-- A byte of an encoded character is the number of the character, or no ASCII byte. -/
theorem byte_of_mem_encode {c : Char} {b : UInt8} (h : b ∈ String.utf8EncodeChar c) :
    b.toNat = c.toNat ∨ 0x80 ≤ b.toNat := by
  have hseq := sequence_encode c
  have hcode := codePoint_encode c
  generalize String.utf8EncodeChar c = s at h hseq hcode
  cases hseq with
  | one ha =>
    rw [List.mem_singleton] at h
    exact Or.inl (h ▸ hcode)
  | two ha ha' hb =>
    simp only [List.mem_cons, List.not_mem_nil, or_false, Continues] at h hb
    rcases h with rfl | rfl <;> omega
  | three ha ha' hlo hhi hb hc =>
    simp only [List.mem_cons, List.not_mem_nil, or_false, Continues] at h hb hc
    rcases h with rfl | rfl | rfl <;> omega
  | four ha ha' hlo hhi hb hc hd =>
    simp only [List.mem_cons, List.not_mem_nil, or_false, Continues] at h hb hc hd
    rcases h with rfl | rfl | rfl | rfl <;> omega

theorem toNat_ofNat {n : Nat} (hn : n.isValidChar) : (Char.ofNat n).toNat = n := by
  unfold Char.ofNat
  rw [dif_pos hn]
  rfl

/-- A valid sequence writes the character of its code point. -/
theorem encode_codePoint {s : Bytes} (h : Sequence s) :
    String.utf8EncodeChar (Char.ofNat (codePoint s)) = s := by
  have hn : (codePoint s).isValidChar := by
    unfold Nat.isValidChar
    cases h with
    | one ha => simp only [codePoint]; omega
    | two ha ha' hb => simp only [codePoint]; omega
    | three ha ha' hlo hhi hb hc => simp only [codePoint, Continues] at *; omega
    | four ha ha' hlo hhi hb hc hd => simp only [codePoint, Continues] at *; omega
  have hv : (Char.ofNat (codePoint s)).val.toNat = codePoint s := toNat_ofNat hn
  unfold String.utf8EncodeChar
  simp only [hv]
  generalize hs : codePoint s = n
  cases h with
  | one ha =>
    simp only [codePoint] at hs
    rw [if_pos (by omega), ← hs, UInt8.ofNat_toNat]
  | two ha ha' hb =>
    simp only [codePoint, Continues] at hs hb
    rw [if_neg (by omega), if_pos (by omega)]
    simp only [List.cons.injEq, and_true, ← UInt8.toNat_inj, UInt8.toNat_ofNat']
    omega
  | three ha ha' hlo hhi hb hc =>
    simp only [codePoint, Continues] at hs hb hc
    rw [if_neg (by omega), if_neg (by omega), if_pos (by omega)]
    simp only [List.cons.injEq, and_true, ← UInt8.toNat_inj, UInt8.toNat_ofNat']
    omega
  | four ha ha' hlo hhi hb hc hd =>
    simp only [codePoint, Continues] at hs hb hc hd
    rw [if_neg (by omega), if_neg (by omega), if_neg (by omega)]
    simp only [List.cons.injEq, and_true, ← UInt8.toNat_inj, UInt8.toNat_ofNat']
    omega

/-! ## Pieces -/

theorem piecesFrom_eq (n : Nat) (acc : List Piece) (s : Bytes) :
    piecesFrom n acc s = acc.reverse ++ pieces (s.drop n) := by
  induction s generalizing n acc with
  | nil => simp [pieces, piecesFrom]
  | cons b rest ih =>
    cases n with
    | succ n => simpa [piecesFrom] using ih n acc
    | zero =>
      simp only [pieces, List.drop_zero, piecesFrom]
      split
      · rw [ih, ih 0 [_]]; simp
      · rw [ih, ih _ [_]]; simp

@[simp] theorem pieces_nil : pieces [] = [] := rfl

theorem pieces_stray {b : UInt8} {rest : Bytes} (h : sequenceLength (b :: rest) = 0) :
    pieces (b :: rest) = .stray b :: pieces rest := by
  simp [pieces, piecesFrom, h, piecesFrom_eq 0 [_]]

theorem Sequence.ne_nil {s : Bytes} (h : Sequence s) : s ≠ [] := by
  cases h <;> simp

theorem pieces_sequence {s : Bytes} (h : Sequence s) (rest : Bytes) :
    pieces (s ++ rest) = .char (Char.ofNat (codePoint s)) :: pieces rest := by
  have hl := sequenceLength_append h rest
  obtain ⟨b, t, rfl⟩ := List.exists_cons_of_ne_nil h.ne_nil
  rw [List.length_cons] at hl
  simp only [pieces, List.cons_append, piecesFrom] at hl ⊢
  simp [hl, piecesFrom_eq t.length [_], pieces]

/-- An encoded character is one piece. -/
theorem pieces_encode (c : Char) (rest : Bytes) :
    pieces (String.utf8EncodeChar c ++ rest) = .char c :: pieces rest := by
  rw [pieces_sequence (sequence_encode c), codePoint_encode, Char.ofNat_toNat]

theorem pieces_flatMap_encode (cs : List Char) :
    pieces (cs.flatMap String.utf8EncodeChar) = cs.map Piece.char := by
  induction cs with
  | nil => rfl
  | cons c cs ih => rw [List.flatMap_cons, pieces_encode, ih, List.map_cons]

/-- Nothing is lost in the pieces. -/
theorem flatMap_bytes_pieces (s : Bytes) : (pieces s).flatMap Piece.bytes = s := by
  induction hn : s.length using Nat.strong_induction_on generalizing s with
  | _ n ih =>
  obtain _ | ⟨b, rest⟩ := s
  · rfl
  cases hl : sequenceLength (b :: rest) with
  | zero =>
    rw [pieces_stray hl, List.flatMap_cons, ih rest.length (by simp [← hn]) rest rfl]
    rfl
  | succ k =>
    have hseq := sequence_take hl
    have hlt : ((b :: rest).drop (k + 1)).length < n := by
      rw [← hn, List.length_drop, List.length_cons]; omega
    -- the first sequence is the encoding of its character
    calc (pieces (b :: rest)).flatMap Piece.bytes
        = (pieces ((b :: rest).take (k + 1) ++ (b :: rest).drop (k + 1))).flatMap Piece.bytes := by
          rw [List.take_append_drop]
      _ = (b :: rest).take (k + 1) ++ (b :: rest).drop (k + 1) := by
          rw [pieces_sequence hseq, List.flatMap_cons, ih _ hlt _ rfl, Piece.bytes, encode_codePoint hseq]
      _ = b :: rest := List.take_append_drop ..

/-- An ASCII byte is a character of its own, never a stray byte. -/
theorem not_ascii_of_stray_mem {s : Bytes} {b : UInt8} (h : Piece.stray b ∈ pieces s) : 0x80 ≤ b.toNat := by
  induction hn : s.length using Nat.strong_induction_on generalizing s with
  | _ n ih =>
  obtain _ | ⟨b', rest⟩ := s
  · cases h
  cases hl : sequenceLength (b' :: rest) with
  | zero =>
    rw [pieces_stray hl] at h
    rcases List.mem_cons.1 h with h | h
    · cases h
      by_contra hlt
      have hone := sequenceLength_append (.one (Nat.not_le.1 hlt)) rest
      rw [List.singleton_append, hl] at hone
      cases hone
    · exact ih rest.length (by simp [← hn]) h rfl
  | succ k =>
    have hlt : ((b' :: rest).drop (k + 1)).length < n := by
      rw [← hn, List.length_drop, List.length_cons]; omega
    rw [← List.take_append_drop (k + 1) (b' :: rest), pieces_sequence (sequence_take hl)] at h
    rcases List.mem_cons.1 h with h | h
    · cases h
    · exact ih _ hlt h rfl

/-! ## Repair -/

theorem repair_eq (s : Bytes) : repair s = ((pieces s).map Piece.shown).flatMap String.utf8EncodeChar := by
  rw [repair, List.flatMap_map]

/-- The pieces of a repaired string are the characters that are shown for the string. -/
theorem pieces_repair (s : Bytes) : pieces (repair s) = (pieces s).map fun p => .char p.shown := by
  rw [repair_eq, pieces_flatMap_encode, List.map_map]
  rfl

@[simp] theorem repair_repair (s : Bytes) : repair (repair s) = repair s := by
  rw [repair, pieces_repair, List.flatMap_map]
  rfl

theorem isValid_repair (s : Bytes) : isValid (repair s) = true := by
  simp [isValid, pieces_repair]

/-- Repair leaves exactly the valid strings as they are. -/
theorem repair_eq_self_iff (s : Bytes) : repair s = s ↔ isValid s = true := by
  refine ⟨fun h => h ▸ isValid_repair s, fun h => ?_⟩
  have hshown : ∀ p ∈ pieces s, String.utf8EncodeChar p.shown = p.bytes := by
    intro p hp
    have := List.all_eq_true.1 h p hp
    cases p with
    | char c => rfl
    | stray b => cases this
  rw [repair, List.flatMap_congr hshown, flatMap_bytes_pieces]

/-- Only the empty string is repaired to the empty string. -/
theorem repair_eq_nil_iff (s : Bytes) : repair s = [] ↔ s = [] := by
  constructor
  · intro h
    have hp : pieces s = [] := by simpa [h] using pieces_repair s
    rw [← flatMap_bytes_pieces s, hp]
    rfl
  · rintro rfl
    rfl

end CounterLedger.Utf8
