/-
Letter case. A name made of small letters is the same as a given one, up to case, exactly when the
given one writes for each letter one of its variants: the letter, its capital, or one of the two
characters outside ASCII that simple case folding takes to a letter.
-/
import CounterLedger.Proofs.Text.Utf8
import CounterLedger.Text.Fold

namespace CounterLedger

theorem utf8_eq (s : String) : utf8 s = s.toList.flatMap String.utf8EncodeChar := by
  obtain ⟨cs, rfl⟩ : ∃ cs, s = String.ofList cs := ⟨s.toList, by simp⟩
  simp [utf8, String.toUTF8, List.utf8Encode]

namespace Fold

/-- The character folds to the small letter. The long s and the Kelvin sign are the only characters
outside ASCII that fold to one. -/
def Variant (letter c : Char) : Prop :=
  c = letter ∨ c = letter.toUpper ∨ (letter = 's' ∧ c = '\u017F') ∨ (letter = 'k' ∧ c = '\u212A')

/-- The given bytes write a variant of each letter of the name, in order. -/
def Matches (name : String) (given : Bytes) : Prop :=
  ∃ cs : List Char, given = cs.flatMap String.utf8EncodeChar ∧ List.Forall₂ Variant name.toList cs

/-! ## Letters -/

theorem toNat_toLower (c : Char) :
    c.toLower.toNat = if 65 ≤ c.toNat ∧ c.toNat ≤ 90 then c.toNat + 32 else c.toNat := by
  unfold Char.toLower Char.toNat
  simp only [ge_iff_le, UInt32.le_iff_toNat_le, show 'A'.val.toNat = 65 from rfl, show 'Z'.val.toNat = 90 from rfl]
  split_ifs with h
  · rw [UInt32.toNat_add, show ('a'.val - 'A'.val).toNat = 32 from rfl]
    omega
  · rfl

theorem toNat_toUpper (c : Char) :
    c.toUpper.toNat = if 97 ≤ c.toNat ∧ c.toNat ≤ 122 then c.toNat - 32 else c.toNat := by
  unfold Char.toUpper Char.toNat
  simp only [UInt32.le_iff_toNat_le, show 'a'.val.toNat = 97 from rfl, show 'z'.val.toNat = 122 from rfl]
  split_ifs with h
  · rw [UInt32.toNat_add, show ('A'.val - 'a'.val).toNat = 4294967264 from rfl]
    omega
  · rfl

theorem isLower_iff (c : Char) : c.isLower = true ↔ 97 ≤ c.toNat ∧ c.toNat ≤ 122 := by
  have hbounds : c.isLower = (decide (97 ≤ c.val) && decide (c.val ≤ 122)) := rfl
  rw [hbounds, Bool.and_eq_true, decide_eq_true_eq, decide_eq_true_eq, UInt32.le_iff_toNat_le, UInt32.le_iff_toNat_le]
  rfl

theorem foldChar_eq_iff {letter : Char} (h : letter.isLower = true) (c : Char) :
    foldChar c = letter ↔ Variant letter c := by
  rw [isLower_iff] at h
  -- neither of the two is the letter or its capital
  have hbeyond {d : Char} (hd : 122 < d.toNat) : d ≠ letter ∧ d ≠ letter.toUpper := by
    simp only [ne_eq, ← Char.toNat_inj, toNat_toUpper]
    split_ifs
    omega
  unfold foldChar Variant
  split_ifs with hs hk
  · obtain rfl := hs
    obtain ⟨h₁, h₂⟩ := hbeyond (d := '\u017F') (by decide)
    simp [h₁, h₂, eq_comm]
  · obtain rfl := hk
    obtain ⟨h₁, h₂⟩ := hbeyond (d := '\u212A') (by decide)
    simp [h₁, h₂, eq_comm]
  · have hlower : c.toLower = letter ↔ c = letter ∨ c = letter.toUpper := by
      simp only [← Char.toNat_inj, toNat_toLower, toNat_toUpper]
      split_ifs <;> omega
    simp [hlower, hs, hk]

/-! ## Names -/

/-- The bytes of a piece after folding. -/
def foldPiece : Utf8.Piece → Bytes
  | .char c => String.utf8EncodeChar (foldChar c)
  | .stray b => [b]

theorem fold_eq (s : Bytes) : fold s = (Utf8.pieces s).flatMap foldPiece := by
  refine List.flatMap_congr fun p _ => ?_
  cases p <;> rfl

/-- Texts that start with encoded characters agree on them. -/
theorem encode_append_inj {c d : Char} {s t : Bytes}
    (h : String.utf8EncodeChar c ++ s = String.utf8EncodeChar d ++ t) : c = d ∧ s = t := by
  have hpieces := congrArg Utf8.pieces h
  rw [Utf8.pieces_encode, Utf8.pieces_encode, List.cons.injEq] at hpieces
  obtain rfl := Utf8.Piece.char.inj hpieces.1
  exact ⟨rfl, List.append_cancel_left h⟩

/-- Pieces that fold to letters are variants of the letters, one for one. -/
theorem pieces_folding {letters : List Char} (hletters : ∀ l ∈ letters, l.isLower = true) {ps : List Utf8.Piece}
    (hps : ∀ b, Utf8.Piece.stray b ∈ ps → 0x80 ≤ b.toNat) :
    ps.flatMap foldPiece = letters.flatMap String.utf8EncodeChar ↔
      ∃ cs, ps = cs.map .char ∧ List.Forall₂ Variant letters cs := by
  induction ps generalizing letters with
  | nil =>
    cases letters with
    | nil => exact ⟨fun _ => ⟨[], rfl, .nil⟩, fun _ => rfl⟩
    | cons l letters =>
      constructor
      · intro h
        rw [List.flatMap_nil, List.flatMap_cons] at h
        exact absurd (List.append_eq_nil_iff.1 h.symm).1 (Utf8.sequence_encode l).ne_nil
      · rintro ⟨cs, hcs, hvariants⟩
        cases hvariants
        cases hcs
  | cons p ps ih =>
    cases letters with
    | nil =>
      constructor
      · intro h
        rw [List.flatMap_nil, List.flatMap_cons] at h
        have hp := (List.append_eq_nil_iff.1 h).1
        cases p with
        | char c => exact absurd hp (Utf8.sequence_encode _).ne_nil
        | stray b => cases hp
      · rintro ⟨cs, hcs, hvariants⟩
        cases hvariants
        cases hcs
    | cons l letters =>
      have hl := hletters l List.mem_cons_self
      have hrest := ih (fun l hl => hletters l (List.mem_cons_of_mem _ hl))
        fun b hb => hps b (List.mem_cons_of_mem _ hb)
      rw [List.flatMap_cons, List.flatMap_cons]
      cases p with
      | char c =>
        constructor
        · intro h
          obtain ⟨hc, hfolded⟩ := encode_append_inj h
          obtain ⟨cs, rfl, hvariants⟩ := hrest.1 hfolded
          exact ⟨c :: cs, rfl, .cons ((foldChar_eq_iff hl c).1 hc) hvariants⟩
        · rintro ⟨cs, hcs, hvariants⟩
          obtain _ | ⟨hc, hvariants⟩ := hvariants
          cases hcs
          rw [hrest.2 ⟨_, rfl, hvariants⟩, foldPiece, (foldChar_eq_iff hl c).2 hc]
      | stray b =>
        constructor
        · -- a stray byte is none of ASCII, as the first byte of a letter is
          intro h
          rw [isLower_iff] at hl
          rw [Utf8.encode_ascii (by omega)] at h
          have hb := hps b List.mem_cons_self
          have hbyte : b = UInt8.ofNat l.toNat := (List.cons.inj h).1
          rw [hbyte, UInt8.toNat_ofNat'] at hb
          omega
        · rintro ⟨cs, hcs, hvariants⟩
          obtain _ | ⟨hc, hvariants⟩ := hvariants
          cases hcs

theorem fold_utf8 {name : String} (hname : ∀ c ∈ name.toList, c.isLower = true) : fold (utf8 name) = utf8 name := by
  rw [fold_eq, utf8_eq, Utf8.pieces_flatMap_encode]
  refine (pieces_folding hname ?_).2 ⟨name.toList, rfl, ?_⟩
  · intro b hb
    obtain ⟨c, -, hc⟩ := List.mem_map.1 hb
    cases hc
  · exact List.forall₂_same.2 fun c _ => .inl rfl

/-- A name of small letters is the same as the given one exactly when that is one of its spellings. -/
theorem same_iff {name : String} (hname : ∀ c ∈ name.toList, c.isLower = true) (given : Bytes) :
    same (utf8 name) given = true ↔ Matches name given := by
  have hsame : same (utf8 name) given = true ↔ fold given = utf8 name := by
    simp only [same, Bool.or_eq_true, decide_eq_true_eq, fold_utf8 hname]
    exact ⟨fun h => h.elim (fun h => h ▸ fold_utf8 hname) id, .inr⟩
  rw [hsame, fold_eq, utf8_eq, pieces_folding hname fun b hb => Utf8.not_ascii_of_stray_mem hb]
  constructor
  · rintro ⟨cs, hcs, hvariants⟩
    refine ⟨cs, ?_, hvariants⟩
    rw [← Utf8.flatMap_bytes_pieces given, hcs, List.flatMap_map]
    rfl
  · rintro ⟨cs, rfl, hvariants⟩
    exact ⟨cs, Utf8.pieces_flatMap_encode cs, hvariants⟩

end Fold

end CounterLedger
