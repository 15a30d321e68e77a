/-
Printed JSON can be read. What is printed for a value is a text of the grammar, and the value that
this text writes is the one that was printed: numbers as they are, and strings repaired.
-/
import CounterLedger.Json.Printer
import CounterLedger.Proofs.Json.Grammar
import CounterLedger.Proofs.Text.Numeral
import CounterLedger.Proofs.Text.Utf8

namespace CounterLedger.Json

/-! ## Strings -/

theorem hexValue_hexDigit : ∀ n < 16, hexValue (Bytes.hexDigit n) = some n := by decide

/-- The escape of a unit names that unit. -/
theorem hexUnit_hexDigits {n : Nat} (h : n < 0x10000) :
    ∃ a b c d, Quoted.hexDigits 4 n = [a, b, c, d] ∧ hexUnit a b c d = some n := by
  refine ⟨_, _, _, _, rfl, ?_⟩
  have hd (m : Nat) : hexValue (Bytes.hexDigit (m % 16)) = some (m % 16) :=
    hexValue_hexDigit _ (Nat.mod_lt _ (by decide))
  simp only [hexUnit, hd, Option.bind_eq_bind, Option.bind_some, Option.some.injEq]
  omega

theorem spelled_eq (w : Option Nat) (acc : List Bytes) (ms : List Mark) :
    spelled w acc ms = acc.reverse.flatten ++ spelled w [] ms := by
  induction ms generalizing w acc with
  | nil => simp [spelled]
  | cons m ms ih =>
    cases m with
    | byte b =>
      rw [spelled, spelled, ih none, ih none (_ :: _)]
      simp
    | unit u =>
      cases w with
      | some v =>
        simp only [spelled]
        split_ifs
        · rw [ih, ih none [_]]; simp
        · rw [ih, ih (some u) [_]]; simp
        · rw [ih, ih none [_, _]]; simp
      | none =>
        simp only [spelled]
        split_ifs
        · rw [ih]
        · rw [ih, ih none [_]]; simp
        · rw [ih, ih none [_]]; simp

theorem spelled_bytes (bs : Bytes) (ms : List Mark) :
    spelled none [] (bs.map .byte ++ ms) = bs ++ spelled none [] ms := by
  induction bs with
  | nil => rfl
  | cons b bs ih =>
    rw [List.map_cons, List.cons_append, spelled, spelled_eq, ih]
    rfl

theorem Grammar.Spelling.append {s t : Bytes} {ms ms' : List Mark} (h : Spelling s ms) (h' : Spelling t ms') :
    Spelling (s ++ t) (ms ++ ms') := by
  induction h with
  | nil => exact h'
  | plain hlow hquote hslash _ ih => exact .plain hlow hquote hslash ih
  | short he _ ih => exact .short he ih
  | unit hu _ ih => exact .unit hu ih

theorem spelling_bytes {bs : Bytes} (h : ∀ b ∈ bs, 0x20 ≤ b.toNat ∧ b ≠ 0x22 ∧ b ≠ 0x5c) :
    Grammar.Spelling bs (bs.map .byte) := by
  induction bs with
  | nil => exact .nil
  | cons b bs ih =>
    obtain ⟨hlow, hquote, hslash⟩ := h b List.mem_cons_self
    have hlow' : ¬ b < 0x20 := by rw [UInt8.lt_iff_toNat_lt]; exact Nat.not_lt.2 hlow
    exact .plain hlow' hquote hslash (ih fun b hb => h b (List.mem_cons_of_mem _ hb))

/-- What is printed for a character spells the character. -/
theorem spelling_escapeChar (c : Char) :
    ∃ ms, Grammar.Spelling (escapeChar c) ms ∧
      ∀ more, spelled none [] (ms ++ more) = String.utf8EncodeChar c ++ spelled none [] more := by
  -- a short escape names the only byte of its character
  have short {e b : UInt8} (hs : shortEscape e = some b) (hb : String.utf8EncodeChar c = [b]) :
      ∃ ms, Grammar.Spelling [0x5c, e] ms ∧
        ∀ more, spelled none [] (ms ++ more) = String.utf8EncodeChar c ++ spelled none [] more :=
    ⟨[.byte b], .short hs .nil, fun more => by rw [hb]; exact spelled_bytes [b] more⟩
  have one {n : Nat} (hn : c.toNat = n) (hlt : n < 0x80) : String.utf8EncodeChar c = [UInt8.ofNat n] :=
    hn ▸ Utf8.encode_ascii (hn ▸ hlt)
  unfold escapeChar
  split
  · exact short rfl (one (by assumption) (by decide))
  · exact short rfl (one (by assumption) (by decide))
  · exact short rfl (one (by assumption) (by decide))
  · exact short rfl (one (by assumption) (by decide))
  · exact short rfl (one (by assumption) (by decide))
  · exact short rfl (one (by assumption) (by decide))
  · exact short rfl (one (by assumption) (by decide))
  rename_i hquote hslash _ _ _ _ _
  split
  · -- a unit that is no surrogate is its own character
    rename_i hc
    have hlt : c.toNat < 0x3000 := by simp only [Bool.or_eq_true, decide_eq_true_eq] at hc; omega
    obtain ⟨a, b, d, e, hhex, hunit⟩ := hexUnit_hexDigits (show c.toNat < 0x10000 by omega)
    refine ⟨[.unit c.toNat], ?_, fun more => ?_⟩
    · rw [unitEscape, hhex]
      exact .unit hunit .nil
    · have hhigh : isHighSurrogate c.toNat = false := by simp [isHighSurrogate]; omega
      have hlow : isLowSurrogate c.toNat = false := by simp [isLowSurrogate]; omega
      rw [List.singleton_append, spelled]
      simp only [hhigh, hlow, Bool.false_eq_true, if_false]
      rw [spelled_eq, spelled.encode, Char.ofNat_toNat]
      simp
  · -- any other character stands for itself
    rename_i hc
    refine ⟨(String.utf8EncodeChar c).map .byte, spelling_bytes ?_, spelled_bytes _⟩
    intro b hb
    simp only [Bool.or_eq_true, decide_eq_true_eq, not_or] at hc
    have hbyte := Utf8.byte_of_mem_encode hb
    refine ⟨by omega, ?_, ?_⟩
    · rintro rfl
      rcases hbyte with h | h
      · exact hquote h.symm
      · exact absurd h (by decide)
    · rintro rfl
      rcases hbyte with h | h
      · exact hslash h.symm
      · exact absurd h (by decide)

theorem spelling_escaped (cs : List Char) :
    ∃ ms, Grammar.Spelling (cs.flatMap escapeChar) ms ∧ spelled none [] ms = cs.flatMap String.utf8EncodeChar := by
  induction cs with
  | nil => exact ⟨[], .nil, rfl⟩
  | cons c cs ih =>
    obtain ⟨ms, hms, hspelled⟩ := spelling_escapeChar c
    obtain ⟨more, hmore, hrest⟩ := ih
    refine ⟨ms ++ more, hms.append hmore, ?_⟩
    rw [hspelled, hrest, List.flatMap_cons]

/-- A printed string is written between quotes, and decodes to the repaired one. -/
theorem text_renderString (s : Bytes) :
    ∃ t, renderString s = 0x22 :: (t ++ [0x22]) ∧ Grammar.Text t (Utf8.repair s) := by
  obtain ⟨ms, hms, hspelled⟩ := spelling_escaped ((Utf8.pieces s).map Utf8.Piece.shown)
  refine ⟨((Utf8.pieces s).map Utf8.Piece.shown).flatMap escapeChar, ?_, ms, hms, ?_⟩
  · rw [renderString, List.flatMap_map, List.cons_append]
  · rw [hspelled, ← Utf8.repair_eq, Utf8.repair_repair]

/-! ## Values -/

theorem number_decimal (m : Nat) : Grammar.Number (Numeral.decimal m) := by
  refine ⟨[], Numeral.decimal m, [], [], by simp, .inl rfl, ?_, .inl rfl, .inl rfl⟩
  have hdigits := Numeral.isDigit_of_mem_decimal m
  obtain ⟨b, ds, he, -, hzero⟩ := Numeral.decimal_cons m
  rw [he] at hdigits ⊢
  by_cases hb : b = 0x30
  · obtain rfl := hb
    rw [hzero rfl]
    exact .inl rfl
  · exact .inr ⟨⟨List.cons_ne_nil b ds, hdigits⟩, fun h => hb (Option.some.inj h)⟩

theorem value_of_scalar {depth : Nat} {s : Bytes} {v : Json} (h : Grammar.Scalar s v) : Grammar.Value depth s v := by
  cases depth with
  | zero => exact h
  | succ depth => exact .inl h

theorem value_null (depth : Nat) : Grammar.Value depth (render .null) .null := by
  rw [render]
  exact value_of_scalar .null

theorem value_number (depth m : Nat) :
    Grammar.Value depth (render (.number (Numeral.decimal m))) (.number (Numeral.decimal m)) := by
  rw [render]
  exact value_of_scalar (.number (number_decimal m))

theorem value_string (depth : Nat) (s : Bytes) :
    Grammar.Value depth (render (.string s)) (.string (Utf8.repair s)) := by
  obtain ⟨t, ht, htext⟩ := text_renderString s
  rw [render, ht]
  exact value_of_scalar (.string htext)

theorem padded_self {value : Bytes → Json → Prop} {s : Bytes} {v : Json} (h : value s v) :
    Grammar.Padded value s v :=
  ⟨[], s, [], by simp, by simp [Grammar.Blanks], h, by simp [Grammar.Blanks]⟩

theorem member_render {depth : Nat} {key : Bytes} {j v : Json} (h : Grammar.Value depth (render j) v) :
    Grammar.Member (Grammar.Value depth) (renderString key ++ 0x3a :: render j) (Utf8.repair key, v) := by
  obtain ⟨t, ht, htext⟩ := text_renderString key
  refine ⟨[], t, [], render j, ?_, by simp [Grammar.Blanks], htext, by simp [Grammar.Blanks], padded_self h⟩
  rw [ht]
  simp

theorem separated_renderMembers {depth : Nat} {m v : Bytes × Json} {ms vs : List (Bytes × Json)}
    (h : List.Forall₂ (fun m v => v.1 = Utf8.repair m.1 ∧ Grammar.Value depth (render m.2) v.2) (m :: ms) (v :: vs)) :
    Grammar.Separated (Grammar.Member (Grammar.Value depth)) (renderMembers (m :: ms)) (v :: vs) := by
  induction ms generalizing m v vs with
  | nil =>
    obtain ⟨key, j⟩ := m
    obtain ⟨_, j'⟩ := v
    cases h with
    | cons hv hvs =>
    cases hvs
    obtain ⟨rfl, hj⟩ := hv
    rw [renderMembers]
    exact .last (member_render hj)
  | cons m' ms ih =>
    obtain ⟨key, j⟩ := m
    obtain ⟨_, j'⟩ := v
    cases h with
    | cons hv hvs =>
    obtain ⟨rfl, hj⟩ := hv
    cases hvs with
    | cons hv' hvs' =>
    have hmore := ih (.cons hv' hvs')
    have hrender : renderMembers ((key, j) :: m' :: ms) =
        (renderString key ++ 0x3a :: render j) ++ 0x2c :: renderMembers (m' :: ms) := by
      rw [renderMembers]
      · simp
      · simp
    rw [hrender]
    exact .more (member_render hj) hmore

/-- A printed object is the text of an object, member by member. -/
theorem value_object {depth : Nat} {ms vs : List (Bytes × Json)}
    (h : List.Forall₂ (fun m v => v.1 = Utf8.repair m.1 ∧ Grammar.Value depth (render m.2) v.2) ms vs) :
    Grammar.Value (depth + 1) (render (.object ms)) (.object vs) := by
  refine .inr ?_
  rw [render, List.cons_append]
  cases h with
  | nil => exact .noMembers (w := []) (by simp [Grammar.Blanks])
  | cons hv hvs => exact .members (separated_renderMembers (.cons hv hvs))

/-- A printed object is read as a document. -/
theorem document_render {ms vs : List (Bytes × Json)}
    (h : List.Forall₂ (fun m v => v.1 = Utf8.repair m.1 ∧ Grammar.Value (maxDepth - 1) (render m.2) v.2) ms vs) :
    document (render (.object ms)) = some (.object vs) :=
  (Grammar.document_iff _ _).2 (padded_self (value_object h))

end CounterLedger.Json
