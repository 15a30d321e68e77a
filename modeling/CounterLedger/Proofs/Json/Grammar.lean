/-
The grammar of JSON, and the reader against it. The grammar says which texts write which values, by
the shape of the text alone: scalars, and containers of values that nest one level less deep, with
blanks around each value and each name. The reader accepts exactly the texts of the grammar, and
reads from each the value that it writes.
-/
import CounterLedger.Json.Reader
import Mathlib.Data.List.TakeWhile
import Mathlib.Tactic

namespace CounterLedger.Json

namespace Grammar

/-! ## The grammar -/

/-- Blanks only, possibly none. -/
def Blanks (s : Bytes) : Prop := ∀ b ∈ s, isBlank b = true

/-- Digits only, at least one. -/
def Digits (s : Bytes) : Prop := s ≠ [] ∧ ∀ b ∈ s, Numeral.isDigit b = true

/-- A single zero, or digits that do not start with one. -/
def Whole (s : Bytes) : Prop := s = [0x30] ∨ Digits s ∧ s.head? ≠ some 0x30

/-- Nothing, or a point and digits. -/
def Fraction (s : Bytes) : Prop := s = [] ∨ ∃ ds, s = 0x2e :: ds ∧ Digits ds

/-- Nothing, or the letter of the exponent, possibly a sign, and digits. -/
def Exponent (s : Bytes) : Prop :=
  s = [] ∨ ∃ e sign ds, s = e :: (sign ++ ds) ∧ (e = 0x65 ∨ e = 0x45) ∧
    (sign = [] ∨ sign = [0x2b] ∨ sign = [0x2d]) ∧ Digits ds

/-- A number: possibly a minus sign, a whole part, a fraction and an exponent. -/
def Number (s : Bytes) : Prop :=
  ∃ sign whole frac exp, s = sign ++ (whole ++ (frac ++ exp)) ∧ (sign = [] ∨ sign = [0x2d]) ∧
    Whole whole ∧ Fraction frac ∧ Exponent exp

/-- The marks that are written between the quotes of a string: bytes that stand for themselves,
short escapes, and units in four hexadecimal digits. -/
inductive Spelling : Bytes → List Mark → Prop where
  | nil : Spelling [] []
  | plain {b s ms} : ¬ b < 0x20 → b ≠ 0x22 → b ≠ 0x5c → Spelling s ms → Spelling (b :: s) (.byte b :: ms)
  | short {e c s ms} : shortEscape e = some c → Spelling s ms → Spelling (0x5c :: e :: s) (.byte c :: ms)
  | unit {a b c d u s ms} : hexUnit a b c d = some u → Spelling s ms →
      Spelling (0x5c :: 0x75 :: a :: b :: c :: d :: s) (.unit u :: ms)

/-- What is written between the quotes of a string decodes to the text. -/
def Text (s text : Bytes) : Prop := ∃ ms, Spelling s ms ∧ text = Utf8.repair (spelled none [] ms)

/-- A value that is no container. -/
inductive Scalar : Bytes → Json → Prop where
  | null : Scalar (utf8 "null") .null
  | yes : Scalar (utf8 "true") (.bool true)
  | no : Scalar (utf8 "false") (.bool false)
  | number {s} : Number s → Scalar s (.number s)
  | string {s text} : Text s text → Scalar (0x22 :: (s ++ [0x22])) (.string text)

/-- At least one thing, with commas between them. -/
inductive Separated {α : Type} (item : Bytes → α → Prop) : Bytes → List α → Prop where
  | last {s a} : item s a → Separated item s [a]
  | more {s a t as} : item s a → Separated item t as → Separated item (s ++ 0x2c :: t) (a :: as)

/-- A value with blanks around it. -/
def Padded (value : Bytes → Json → Prop) (s : Bytes) (v : Json) : Prop :=
  ∃ w t w', s = w ++ (t ++ w') ∧ Blanks w ∧ value t v ∧ Blanks w'

/-- A name with blanks around it, a colon and a padded value. -/
def Member (value : Bytes → Json → Prop) (s : Bytes) (m : Bytes × Json) : Prop :=
  ∃ w n w' t, s = w ++ 0x22 :: (n ++ 0x22 :: (w' ++ 0x3a :: t)) ∧ Blanks w ∧ Text n m.1 ∧ Blanks w' ∧
    Padded value t m.2

/-- An array or an object of the values. -/
inductive Container (value : Bytes → Json → Prop) : Bytes → Json → Prop where
  | noItems {w} : Blanks w → Container value (0x5b :: (w ++ [0x5d])) (.array [])
  | items {s vs} : Separated (Padded value) s vs → Container value (0x5b :: (s ++ [0x5d])) (.array vs)
  | noMembers {w} : Blanks w → Container value (0x7b :: (w ++ [0x7d])) (.object [])
  | members {s ms} : Separated (Member value) s ms → Container value (0x7b :: (s ++ [0x7d])) (.object ms)

/-- A value in which containers nest at most so deep. -/
def Value : Nat → Bytes → Json → Prop
  | 0, s, v => Scalar s v
  | depth + 1, s, v => Scalar s v ∨ Container (Value depth) s v

/-- A whole document. -/
def Document (s : Bytes) (v : Json) : Prop := Padded (Value maxDepth) s v

/-! ## Blanks -/

theorem skipBlanks_cons {b : UInt8} (h : isBlank b = false) (s : Bytes) : skipBlanks (b :: s) = b :: s := by
  rw [skipBlanks, List.dropWhile_cons_of_neg (by simp [h])]

theorem skipBlanks_append {w : Bytes} (h : Blanks w) (s : Bytes) : skipBlanks (w ++ s) = skipBlanks s :=
  List.dropWhile_append_of_pos h

theorem exists_blanks (s : Bytes) : ∃ w, s = w ++ skipBlanks s ∧ Blanks w :=
  ⟨s.takeWhile isBlank, (List.takeWhile_append_dropWhile).symm, fun _ hb => List.mem_takeWhile_imp hb⟩

theorem skipBlanks_skipBlanks (s : Bytes) : skipBlanks (skipBlanks s) = skipBlanks s := by
  obtain ⟨w, hs, hw⟩ := exists_blanks s
  calc skipBlanks (skipBlanks s) = skipBlanks (w ++ skipBlanks s) := (skipBlanks_append hw _).symm
    _ = skipBlanks s := by rw [← hs]

theorem blanks_iff (s : Bytes) : Blanks s ↔ skipBlanks s = [] := by
  constructor
  · intro h
    have hskip := skipBlanks_append h []
    rwa [List.append_nil] at hskip
  · intro h
    obtain ⟨w, hs, hw⟩ := exists_blanks s
    rw [h, List.append_nil] at hs
    exact hs ▸ hw

theorem Blanks.append {w w' : Bytes} (h : Blanks w) (h' : Blanks w') : Blanks (w ++ w') := fun b hb =>
  (List.mem_append.1 hb).elim (h b) (h' b)

theorem Padded.blanks {value : Bytes → Json → Prop} {w s : Bytes} {v : Json} (hw : Blanks w)
    (h : Padded value s v) : Padded value (w ++ s) v := by
  obtain ⟨w₀, t, w', rfl, hw₀, ht, hw'⟩ := h
  exact ⟨w ++ w₀, t, w', by rw [List.append_assoc], hw.append hw₀, ht, hw'⟩

theorem Member.blanks {value : Bytes → Json → Prop} {w s : Bytes} {m : Bytes × Json} (hw : Blanks w)
    (h : Member value s m) : Member value (w ++ s) m := by
  obtain ⟨w₀, n, w', t, rfl, hw₀, hn, hw', ht⟩ := h
  exact ⟨w ++ w₀, n, w', t, by rw [List.append_assoc], hw.append hw₀, hn, hw', ht⟩

theorem Separated.blanks {α : Type} {item : Bytes → α → Prop} {w : Bytes}
    (hitem : ∀ s a, item s a → item (w ++ s) a) {t : Bytes} {as : List α} (h : Separated item t as) :
    Separated item (w ++ t) as := by
  cases h with
  | last ha => exact .last (hitem _ _ ha)
  | more ha hmore =>
    rw [← List.append_assoc]
    exact .more (hitem _ _ ha) hmore

/-! ## What is accepted: numbers and strings -/

theorem digits1_sound {s ds r : Bytes} (h : digits1 s = some (ds, r)) : s = ds ++ r ∧ Digits ds := by
  unfold digits1 at h
  split at h
  · cases h
  · rename_i hne
    cases h
    refine ⟨(List.takeWhile_append_dropWhile).symm, hne, fun b hb => ?_⟩
    exact List.mem_takeWhile_imp hb

theorem integerPart_sound {s ds r : Bytes} (h : integerPart s = some (ds, r)) : s = ds ++ r ∧ Whole ds := by
  unfold integerPart at h
  split at h
  · cases h
    exact ⟨rfl, .inl rfl⟩
  · rename_i hzero
    obtain ⟨rfl, hds⟩ := digits1_sound h
    refine ⟨rfl, .inr ⟨hds, ?_⟩⟩
    obtain _ | ⟨d, ds⟩ := ds
    · exact absurd rfl hds.1
    · intro hd
      cases hd
      exact hzero _ rfl

theorem fraction_sound {s ds r : Bytes} (h : fraction s = some (ds, r)) : s = ds ++ r ∧ Fraction ds := by
  unfold fraction at h
  split at h
  · obtain ⟨⟨ds', r'⟩, hd, he⟩ := Option.map_eq_some_iff.1 h
    cases he
    obtain ⟨rfl, hds⟩ := digits1_sound hd
    exact ⟨rfl, .inr ⟨ds', rfl, hds⟩⟩
  · cases h
    exact ⟨rfl, .inl rfl⟩

theorem exponentSign_sound (s : Bytes) :
    s = (exponentSign s).1 ++ (exponentSign s).2 ∧
      ((exponentSign s).1 = [] ∨ (exponentSign s).1 = [0x2b] ∨ (exponentSign s).1 = [0x2d]) := by
  unfold exponentSign
  split
  · split_ifs with hb
    · simp only [Bool.or_eq_true, decide_eq_true_eq] at hb
      exact ⟨rfl, .inr (hb.imp (by rintro rfl; rfl) (by rintro rfl; rfl))⟩
    · exact ⟨rfl, .inl rfl⟩
  · exact ⟨rfl, .inl rfl⟩

theorem exponent_sound {s ds r : Bytes} (h : exponent s = some (ds, r)) : s = ds ++ r ∧ Exponent ds := by
  unfold exponent at h
  split at h
  · rename_i e rest
    obtain ⟨hrest, hsign⟩ := exponentSign_sound rest
    generalize exponentSign rest = signed at h hrest hsign
    obtain ⟨sign, rest'⟩ := signed
    split_ifs at h with he
    · obtain ⟨⟨ds', r'⟩, hd, heq⟩ := Option.map_eq_some_iff.1 h
      cases heq
      obtain ⟨hr, hds⟩ := digits1_sound hd
      simp only [Bool.or_eq_true, decide_eq_true_eq] at he
      refine ⟨?_, .inr ⟨e, sign, ds', rfl, he, hsign, hds⟩⟩
      rw [hrest, hr, List.cons_append, List.append_assoc]
    · cases h
      exact ⟨rfl, .inl rfl⟩
  · cases h
    exact ⟨rfl, .inl rfl⟩

theorem minusSign_sound (s : Bytes) :
    s = (minusSign s).1 ++ (minusSign s).2 ∧ ((minusSign s).1 = [] ∨ (minusSign s).1 = [0x2d]) := by
  unfold minusSign
  split
  · exact ⟨rfl, .inr rfl⟩
  · exact ⟨rfl, .inl rfl⟩

theorem numeral_sound {s lit r : Bytes} (h : numeral s = some (lit, r)) : s = lit ++ r ∧ Number lit := by
  unfold numeral at h
  simp only [Option.bind_eq_bind, Option.bind_eq_some_iff, Prod.exists, Option.some.injEq, Prod.mk.injEq] at h
  obtain ⟨int, s₂, hint, frac, s₃, hfrac, exp, s₄, hexp, rfl, rfl⟩ := h
  obtain ⟨hs, hsign⟩ := minusSign_sound s
  obtain ⟨h₁, hwhole⟩ := integerPart_sound hint
  obtain ⟨h₂, hfrac⟩ := fraction_sound hfrac
  obtain ⟨h₃, hexp⟩ := exponent_sound hexp
  refine ⟨?_, _, int, frac, exp, rfl, hsign, hwhole, hfrac, hexp⟩
  calc s = (minusSign s).1 ++ (minusSign s).2 := hs
    _ = (minusSign s).1 ++ (int ++ (frac ++ (exp ++ s₄))) := by rw [h₁, h₂, h₃]
    _ = _ := by simp only [List.append_assoc]

theorem marks_sound {acc ms : List Mark} {s rest : Bytes} (h : marks acc s = some (ms, rest)) :
    ∃ t more, s = t ++ 0x22 :: rest ∧ ms = acc.reverse ++ more ∧ Spelling t more := by
  -- on the recursion of the reader, whose other cases accept nothing
  fun_induction marks acc s with
  | case2 acc rest' =>
    cases h
    exact ⟨[], [], rfl, by simp, .nil⟩
  | case4 acc e rest' c he hne ih =>
    obtain ⟨t, more, rfl, rfl, hspell⟩ := ih h
    exact ⟨0x5c :: e :: t, .byte c :: more, rfl, by simp, .short he hspell⟩
  | case5 acc a b c d rest' u hu hne hshort ih =>
    obtain ⟨t, more, rfl, rfl, hspell⟩ := ih h
    exact ⟨_, .unit u :: more, rfl, by simp, .unit hu hspell⟩
  | case10 acc b rest' hquote hslash hlow ih =>
    obtain ⟨t, more, rfl, rfl, hspell⟩ := ih h
    exact ⟨b :: t, .byte b :: more, rfl, by simp, .plain hlow hquote hslash hspell⟩
  | _ => cases h

theorem stringTail_sound {s text rest : Bytes} (h : stringTail s = some (text, rest)) :
    ∃ t, s = t ++ 0x22 :: rest ∧ Text t text := by
  obtain ⟨⟨ms, rest'⟩, hm, he⟩ := Option.map_eq_some_iff.1 h
  cases he
  obtain ⟨t, _, rfl, rfl, hspell⟩ := marks_sound hm
  exact ⟨t, rfl, _, hspell, rfl⟩

/-! ## What is accepted: values -/

theorem word_sound {w s rest : Bytes} {v v' : Json} (h : word w v s = some (v', rest)) : v' = v ∧ s = w ++ rest := by
  unfold word at h
  split_ifs at h with hw
  cases h
  obtain ⟨t, rfl⟩ := List.isPrefixOf_iff_prefix.1 hw
  exact ⟨rfl, by rw [List.drop_left]⟩

theorem scalar_sound {s rest : Bytes} {v : Json} (h : scalar s = some (v, rest)) :
    ∃ t, s = t ++ rest ∧ Scalar t v := by
  unfold scalar at h
  split at h
  · obtain ⟨⟨text, r⟩, ht, he⟩ := Option.map_eq_some_iff.1 h
    cases he
    obtain ⟨t, rfl, htext⟩ := stringTail_sound ht
    exact ⟨0x22 :: (t ++ [0x22]), by simp, .string htext⟩
  · obtain ⟨rfl, rfl⟩ := word_sound h
    exact ⟨utf8 "true", rfl, .yes⟩
  · obtain ⟨rfl, rfl⟩ := word_sound h
    exact ⟨utf8 "false", rfl, .no⟩
  · obtain ⟨rfl, rfl⟩ := word_sound h
    exact ⟨utf8 "null", rfl, .null⟩
  · obtain ⟨⟨lit, r⟩, hn, he⟩ := Option.map_eq_some_iff.1 h
    cases he
    obtain ⟨rfl, hnumber⟩ := numeral_sound hn
    exact ⟨lit, rfl, .number hnumber⟩

/-- What the reader takes from the front is, after blanks, the text of the value that it gives. -/
def Accepts (item : Bytes → Option (Json × Bytes)) (value : Bytes → Json → Prop) : Prop :=
  ∀ s v rest, item s = some (v, rest) → ∃ w t, s = w ++ (t ++ rest) ∧ Blanks w ∧ value t v

theorem items_sound {item : Bytes → Option (Json × Bytes)} {value : Bytes → Json → Prop} (hitem : Accepts item value)
    {n : Nat} {acc vs : List Json} {s rest : Bytes} (h : items item n acc s = some (vs, rest)) :
    ∃ t us, s = t ++ 0x5d :: rest ∧ vs = acc.reverse ++ us ∧ Separated (Padded value) t us := by
  induction n generalizing acc s with
  | zero => cases h
  | succ n ih =>
    rw [items] at h
    split at h
    · cases h
    · rename_i v r hv
      obtain ⟨w, t, rfl, hw, ht⟩ := hitem _ _ _ hv
      -- the blanks after an item count as its padding
      obtain ⟨w', hr, hw'⟩ := exists_blanks r
      split at h
      · rename_i r₁ hcomma
        obtain ⟨t', us, rfl, rfl, hus⟩ := ih h
        refine ⟨w ++ (t ++ w') ++ 0x2c :: t', v :: us, ?_, by simp, .more ⟨w, t, w', rfl, hw, ht, hw'⟩ hus⟩
        rw [hr, hcomma]
        simp
      · rename_i r₁ hclose
        cases h
        refine ⟨w ++ (t ++ w'), [v], ?_, by simp, .last ⟨w, t, w', rfl, hw, ht, hw'⟩⟩
        rw [hr, hclose]
        simp
      · cases h

theorem name_sound {s text rest : Bytes} (h : name s = some (text, rest)) :
    ∃ w t w', s = w ++ 0x22 :: (t ++ 0x22 :: (w' ++ 0x3a :: rest)) ∧ Blanks w ∧ Text t text ∧ Blanks w' := by
  obtain ⟨w, hs, hw⟩ := exists_blanks s
  unfold name at h
  split at h
  · rename_i r hquote
    split at h
    · cases h
    · rename_i text' r' htail
      obtain ⟨t, rfl, htext⟩ := stringTail_sound htail
      obtain ⟨w', hr, hw'⟩ := exists_blanks r'
      split at h
      · rename_i r₂ hcolon
        cases h
        refine ⟨w, t, w', ?_, hw, htext, hw'⟩
        rw [hcolon] at hr
        rw [← hr, ← hquote]
        exact hs
      · cases h
  · cases h

theorem members_sound {item : Bytes → Option (Json × Bytes)} {value : Bytes → Json → Prop}
    (hitem : Accepts item value) {n : Nat} {acc ms : List (Bytes × Json)} {s rest : Bytes}
    (h : members item n acc s = some (ms, rest)) :
    ∃ t us, s = t ++ 0x7d :: rest ∧ ms = acc.reverse ++ us ∧ Separated (Member value) t us := by
  induction n generalizing acc s with
  | zero => cases h
  | succ n ih =>
    rw [members] at h
    split at h
    · cases h
    · rename_i key r hname
      obtain ⟨w₁, k, w₂, rfl, hw₁, hk, hw₂⟩ := name_sound hname
      split at h
      · cases h
      · rename_i v r' hv
        obtain ⟨w, t, rfl, hw, ht⟩ := hitem _ _ _ hv
        obtain ⟨w', hr, hw'⟩ := exists_blanks r'
        have hmember : Member value (w₁ ++ 0x22 :: (k ++ 0x22 :: (w₂ ++ 0x3a :: (w ++ (t ++ w'))))) (key, v) :=
          ⟨w₁, k, w₂, w ++ (t ++ w'), rfl, hw₁, hk, hw₂, w, t, w', rfl, hw, ht, hw'⟩
        split at h
        · rename_i r₁ hcomma
          obtain ⟨t', us, rfl, rfl, hus⟩ := ih h
          refine ⟨_, (key, v) :: us, ?_, by simp, .more hmember hus⟩
          rw [hr, hcomma]
          simp
        · rename_i r₁ hclose
          cases h
          refine ⟨_, [(key, v)], ?_, by simp, .last hmember⟩
          rw [hr, hclose]
          simp
        · cases h

theorem arrayTail_sound {item : Bytes → Option (Json × Bytes)} {value : Bytes → Json → Prop}
    (hitem : Accepts item value) {n : Nat} {s rest : Bytes} {v : Json} (h : arrayTail item n s = some (v, rest)) :
    ∃ t, 0x5b :: s = t ++ rest ∧ Container value t v := by
  obtain ⟨w, hs, hw⟩ := exists_blanks s
  unfold arrayTail at h
  split at h
  · rename_i r hclose
    cases h
    refine ⟨0x5b :: (w ++ [0x5d]), ?_, .noItems hw⟩
    rw [hs, hclose]
    simp
  · obtain ⟨⟨vs, r⟩, hi, he⟩ := Option.map_eq_some_iff.1 h
    cases he
    obtain ⟨t, _, hskip, rfl, hvs⟩ := items_sound hitem hi
    refine ⟨0x5b :: (w ++ t ++ [0x5d]), ?_, .items (hvs.blanks fun _ _ => Padded.blanks hw)⟩
    rw [hs, hskip]
    simp

theorem objectTail_sound {item : Bytes → Option (Json × Bytes)} {value : Bytes → Json → Prop}
    (hitem : Accepts item value) {n : Nat} {s rest : Bytes} {v : Json} (h : objectTail item n s = some (v, rest)) :
    ∃ t, 0x7b :: s = t ++ rest ∧ Container value t v := by
  obtain ⟨w, hs, hw⟩ := exists_blanks s
  obtain ⟨⟨ms, r⟩, hm, he⟩ := Option.map_eq_some_iff.1 h
  cases he
  unfold objectMembers at hm
  split at hm
  · rename_i r hclose
    cases hm
    refine ⟨0x7b :: (w ++ [0x7d]), ?_, .noMembers hw⟩
    rw [hs, hclose]
    simp
  · obtain ⟨t, _, hskip, rfl, hms⟩ := members_sound hitem hm
    refine ⟨0x7b :: (w ++ t ++ [0x7d]), ?_, .members (hms.blanks fun _ _ => Member.blanks hw)⟩
    rw [hs, hskip]
    simp

/-- The reader gives only values that the text in front writes. -/
theorem value_sound (n depth : Nat) : Accepts (value n depth) (Value depth) := by
  -- on the depth: a container leaves one level less for what is in it
  induction depth with
  | zero =>
    intro s v rest h
    obtain ⟨w, hs, hw⟩ := exists_blanks s
    rw [value.eq_def] at h
    split at h
    · cases h
    · cases h
    · obtain ⟨t, ht, hscalar⟩ := scalar_sound h
      exact ⟨w, t, by rw [← ht]; exact hs, hw, hscalar⟩
  | succ depth ih =>
    intro s v rest h
    obtain ⟨w, hs, hw⟩ := exists_blanks s
    rw [value.eq_def] at h
    split at h
    · rename_i r hopen
      obtain ⟨t, ht, hcontainer⟩ := arrayTail_sound ih h
      exact ⟨w, t, by rw [← ht, ← hopen]; exact hs, hw, .inr hcontainer⟩
    · rename_i r hopen
      obtain ⟨t, ht, hcontainer⟩ := objectTail_sound ih h
      exact ⟨w, t, by rw [← ht, ← hopen]; exact hs, hw, .inr hcontainer⟩
    · obtain ⟨t, ht, hscalar⟩ := scalar_sound h
      exact ⟨w, t, by rw [← ht]; exact hs, hw, .inl hscalar⟩

/-! ## What is read: numbers and strings -/

/-- Nothing follows, or something that may stand after a value: a blank, a comma or a closing mark. -/
def Stops (rest : Bytes) : Prop := ∀ b ∈ rest.head?, isBlank b = true ∨ b = 0x2c ∨ b = 0x5d ∨ b = 0x7d

theorem Stops.blanks {w rest : Bytes} (hw : Blanks w) (hrest : Stops rest) : Stops (w ++ rest) := by
  cases w with
  | nil => exact hrest
  | cons b w => intro b' hb'; cases hb'; exact .inl (hw b List.mem_cons_self)

theorem stops_blanks {w : Bytes} (hw : Blanks w) : Stops w := by
  have hnil : Stops [] := fun _ hb => by cases hb
  simpa using hnil.blanks hw

/-- A byte that may stand after a value continues no number. -/
theorem Stops.not_number {rest : Bytes} (h : Stops rest) {b : UInt8} (hb : b ∈ rest.head?) :
    Numeral.isDigit b = false ∧ b ≠ 0x2e ∧ b ≠ 0x65 ∧ b ≠ 0x45 := by
  rcases h b hb with hblank | rfl | rfl | rfl
  · simp only [isBlank, Bool.or_eq_true, decide_eq_true_eq] at hblank
    rcases hblank with ((rfl | rfl) | rfl) | rfl <;> decide
  all_goals decide

theorem digits1_complete {ds rest : Bytes} (hd : Digits ds) (hr : ∀ b ∈ rest.head?, Numeral.isDigit b = false) :
    digits1 (ds ++ rest) = some (ds, rest) := by
  obtain ⟨hne, hall⟩ := hd
  have hstop : rest.takeWhile Numeral.isDigit = [] ∧ rest.dropWhile Numeral.isDigit = rest := by
    cases rest with
    | nil => exact ⟨rfl, rfl⟩
    | cons b rest =>
      have hb : ¬ Numeral.isDigit b = true := by rw [hr b rfl]; decide
      exact ⟨List.takeWhile_cons_of_neg hb, List.dropWhile_cons_of_neg hb⟩
  unfold digits1
  rw [List.takeWhile_append_of_pos hall, List.dropWhile_append_of_pos hall, hstop.1, hstop.2, List.append_nil]
  split
  · exact absurd rfl hne
  · rfl

theorem integerPart_complete {ds rest : Bytes} (hd : Whole ds) (hr : ∀ b ∈ rest.head?, Numeral.isDigit b = false) :
    integerPart (ds ++ rest) = some (ds, rest) := by
  rcases hd with rfl | ⟨hds, hzero⟩
  · rfl
  · unfold integerPart
    split
    · rename_i r he
      obtain _ | ⟨d, ds⟩ := ds
      · exact absurd rfl hds.1
      · exact absurd (congrArg List.head? he) (by simpa using hzero)
    · exact digits1_complete hds hr

theorem fraction_complete {ds rest : Bytes} (hd : Fraction ds)
    (hr : ∀ b ∈ rest.head?, Numeral.isDigit b = false ∧ b ≠ 0x2e) : fraction (ds ++ rest) = some (ds, rest) := by
  rcases hd with rfl | ⟨ds, rfl, hds⟩
  · unfold fraction
    split
    · rename_i r he
      exact absurd rfl (hr 0x2e (by rw [List.nil_append] at he; rw [he]; rfl)).2
    · rfl
  · rw [List.cons_append, fraction, digits1_complete hds fun b hb => (hr b hb).1]
    rfl

theorem exponentSign_complete {sign ds : Bytes} (hsign : sign = [] ∨ sign = [0x2b] ∨ sign = [0x2d])
    (hds : ∀ b ∈ ds.head?, b ≠ 0x2b ∧ b ≠ 0x2d) : exponentSign (sign ++ ds) = (sign, ds) := by
  rcases hsign with rfl | rfl | rfl
  · unfold exponentSign
    cases ds with
    | nil => rfl
    | cons d ds =>
      obtain ⟨h₁, h₂⟩ := hds d rfl
      simp [h₁, h₂]
  · rfl
  · rfl

theorem exponent_complete {ds rest : Bytes} (hd : Exponent ds)
    (hr : ∀ b ∈ rest.head?, Numeral.isDigit b = false ∧ b ≠ 0x65 ∧ b ≠ 0x45) :
    exponent (ds ++ rest) = some (ds, rest) := by
  rcases hd with rfl | ⟨e, sign, ds, rfl, he, hsign, hds⟩
  · cases rest with
    | nil => rfl
    | cons b rest =>
      obtain ⟨-, h₁, h₂⟩ := hr b rfl
      simp [exponent, h₁, h₂]
  · have hfirst : ∀ b ∈ (ds ++ rest).head?, b ≠ 0x2b ∧ b ≠ 0x2d := by
      obtain _ | ⟨d, ds⟩ := ds
      · exact absurd rfl hds.1
      · intro b hb
        cases hb
        have hdigit := hds.2 d List.mem_cons_self
        refine ⟨?_, ?_⟩ <;> (rintro rfl; cases hdigit)
    have hread := digits1_complete hds fun b hb => (hr b hb).1
    rw [List.cons_append, List.append_assoc, exponent, exponentSign_complete hsign hfirst]
    simp only [hread, Option.map_some]
    rw [if_pos (by simpa using he)]

/-- A whole part starts with a digit, so that a missing sign is not found in it. -/
theorem minusSign_complete {sign whole : Bytes} (hsign : sign = [] ∨ sign = [0x2d]) (hwhole : Whole whole)
    (rest : Bytes) : minusSign (sign ++ (whole ++ rest)) = (sign, whole ++ rest) := by
  rcases hsign with rfl | rfl
  · unfold minusSign
    split
    · rename_i r he
      rcases hwhole with rfl | ⟨⟨hne, hall⟩, -⟩
      · cases he
      · obtain ⟨d, ds, rfl⟩ := List.exists_cons_of_ne_nil hne
        cases he
        exact absurd (hall _ List.mem_cons_self) (by decide)
    · rfl
  · rfl

theorem numeral_complete {lit rest : Bytes} (h : Number lit) (hr : Stops rest) :
    numeral (lit ++ rest) = some (lit, rest) := by
  obtain ⟨sign, whole, frac, exp, rfl, hsign, hwhole, hfrac, hexp⟩ := h
  -- what follows each part is the next part, or the rest
  have hafterFrac : ∀ b ∈ (exp ++ rest).head?, Numeral.isDigit b = false ∧ b ≠ 0x2e := by
    rcases hexp with rfl | ⟨e, sign, ds, rfl, he, -, -⟩
    · intro b hb
      obtain ⟨h₁, h₂, -⟩ := hr.not_number hb
      exact ⟨h₁, h₂⟩
    · intro b hb
      cases hb
      rcases he with rfl | rfl <;> decide
  have hafterWhole : ∀ b ∈ (frac ++ (exp ++ rest)).head?, Numeral.isDigit b = false := by
    rcases hfrac with rfl | ⟨ds, rfl, -⟩
    · exact fun b hb => (hafterFrac b hb).1
    · intro b hb
      cases hb
      rfl
  have hminus := minusSign_complete hsign hwhole (frac ++ (exp ++ rest))
  have hexponent := exponent_complete hexp fun b hb => by
    obtain ⟨h₁, -, h₂⟩ := hr.not_number hb
    exact ⟨h₁, h₂⟩
  unfold numeral
  simp only [List.append_assoc, hminus, integerPart_complete hwhole hafterWhole, fraction_complete hfrac hafterFrac,
    hexponent, Option.bind_eq_bind, Option.bind_some]

theorem marks_complete {t : Bytes} {ms : List Mark} (h : Spelling t ms) (acc : List Mark) (rest : Bytes) :
    marks acc (t ++ 0x22 :: rest) = some (acc.reverse ++ ms, rest) := by
  induction h generalizing acc with
  | nil =>
    rw [List.nil_append, marks.eq_def]
    simp
  | plain hlow hquote hslash _ ih =>
    rw [List.cons_append, marks.eq_def]
    simp only [if_neg hquote, if_neg hslash, if_neg hlow]
    rw [ih]
    simp
  | short he _ ih =>
    rw [List.cons_append, List.cons_append, marks.eq_def]
    simp [he, ih]
  | unit hu _ ih =>
    simp only [List.cons_append]
    rw [marks.eq_def]
    simp [shortEscape, hu, ih]

theorem stringTail_complete {t text : Bytes} (h : Text t text) (rest : Bytes) :
    stringTail (t ++ 0x22 :: rest) = some (text, rest) := by
  obtain ⟨ms, hspell, rfl⟩ := h
  rw [stringTail, marks_complete hspell]
  rfl

/-! ## What is read: values -/

theorem word_complete (w : Bytes) (v : Json) (rest : Bytes) : word w v (w ++ rest) = some (v, rest) := by
  rw [word, if_pos (List.isPrefixOf_iff_prefix.2 (List.prefix_append w rest)), List.drop_left]

/-- A number starts with a digit or the minus sign. -/
theorem Number.head {s : Bytes} (h : Number s) : ∃ b t, s = b :: t ∧ (Numeral.isDigit b = true ∨ b = 0x2d) := by
  obtain ⟨sign, whole, frac, exp, rfl, rfl | rfl, hwhole, -, -⟩ := h
  · rcases hwhole with rfl | ⟨⟨hne, hall⟩, -⟩
    · exact ⟨0x30, _, rfl, .inl rfl⟩
    · obtain ⟨d, ds, rfl⟩ := List.exists_cons_of_ne_nil hne
      exact ⟨d, _, rfl, .inl (hall d List.mem_cons_self)⟩
  · exact ⟨0x2d, _, rfl, .inr rfl⟩

/-- Not a blank, and neither of the closing marks: what a value starts with. -/
def Opens (b : UInt8) : Prop := isBlank b = false ∧ b ≠ 0x5d ∧ b ≠ 0x7d

theorem opens_of_digit {b : UInt8} (h : Numeral.isDigit b = true) :
    Opens b ∧ b ≠ 0x5b ∧ b ≠ 0x7b ∧ b ≠ 0x22 ∧ b ≠ 0x74 ∧ b ≠ 0x66 ∧ b ≠ 0x6e := by
  have hne {c : UInt8} (hc : Numeral.isDigit c = false) : b ≠ c := by
    rintro rfl
    rw [h] at hc
    cases hc
  refine ⟨⟨?_, hne rfl, hne rfl⟩, hne rfl, hne rfl, hne rfl, hne rfl, hne rfl, hne rfl⟩
  simp [isBlank, hne (c := 0x20) rfl, hne (c := 0x09) rfl, hne (c := 0x0a) rfl, hne (c := 0x0d) rfl]

theorem Scalar.head {s : Bytes} {v : Json} (h : Scalar s v) : ∃ b t, s = b :: t ∧ Opens b ∧ b ≠ 0x5b ∧ b ≠ 0x7b := by
  cases h with
  | null => exact ⟨_, _, rfl, by unfold Opens; decide⟩
  | yes => exact ⟨_, _, rfl, by unfold Opens; decide⟩
  | no => exact ⟨_, _, rfl, by unfold Opens; decide⟩
  | string => exact ⟨_, _, rfl, by unfold Opens; decide⟩
  | number hn =>
    obtain ⟨b, t, rfl, hb | rfl⟩ := hn.head
    · obtain ⟨hopens, h₁, h₂, -⟩ := opens_of_digit hb
      exact ⟨b, t, rfl, hopens, h₁, h₂⟩
    · exact ⟨_, t, rfl, by unfold Opens; decide⟩

theorem Value.head {depth : Nat} {s : Bytes} {v : Json} (h : Value depth s v) : ∃ b t, s = b :: t ∧ Opens b := by
  have hscalar (h : Scalar s v) : ∃ b t, s = b :: t ∧ Opens b := by
    obtain ⟨b, t, hs, hb, -⟩ := h.head
    exact ⟨b, t, hs, hb⟩
  cases depth with
  | zero => exact hscalar h
  | succ depth =>
    rcases h with h | h
    · exact hscalar h
    · cases h <;> exact ⟨_, _, rfl, by unfold Opens; decide⟩

theorem scalar_complete {t rest : Bytes} {v : Json} (h : Scalar t v) (hr : Stops rest) :
    scalar (t ++ rest) = some (v, rest) := by
  cases h with
  | null => exact word_complete (utf8 "ull") .null rest
  | yes => exact word_complete (utf8 "rue") (.bool true) rest
  | no => exact word_complete (utf8 "alse") (.bool false) rest
  | string htext =>
    rw [List.cons_append, List.append_assoc, List.singleton_append, scalar, stringTail_complete htext]
    rfl
  | number hn =>
    have hread := numeral_complete hn hr
    obtain ⟨b, s, rfl, hb⟩ := hn.head
    have hfirst : b ≠ 0x22 ∧ b ≠ 0x74 ∧ b ≠ 0x66 ∧ b ≠ 0x6e := by
      rcases hb with hb | rfl
      · exact (opens_of_digit hb).2.2.2
      · decide
    unfold scalar
    split
    · rename_i he; cases he; exact absurd rfl hfirst.1
    · rename_i he; cases he; exact absurd rfl hfirst.2.1
    · rename_i he; cases he; exact absurd rfl hfirst.2.2.1
    · rename_i he; cases he; exact absurd rfl hfirst.2.2.2
    · rw [hread]
      rfl

/-- After blanks, the reader takes the text of a value of at most `n` bytes, and no more. -/
def Takes (item : Bytes → Option (Json × Bytes)) (n : Nat) (value : Bytes → Json → Prop) : Prop :=
  ∀ w t v rest, Blanks w → value t v → t.length ≤ n → Stops rest → item (w ++ (t ++ rest)) = some (v, rest)

theorem stops_cons {b : UInt8} (hb : b = 0x2c ∨ b = 0x5d ∨ b = 0x7d) (rest : Bytes) : Stops (b :: rest) := by
  intro b' hb'
  cases hb'
  exact .inr hb

theorem padded_complete {item : Bytes → Option (Json × Bytes)} {n : Nat} {value : Bytes → Json → Prop}
    (hitem : Takes item n value) {s : Bytes} {v : Json} (h : Padded value s v) (hn : s.length ≤ n)
    {b : UInt8} (hb : b = 0x2c ∨ b = 0x5d ∨ b = 0x7d) (rest : Bytes) :
    ∃ r, item (s ++ b :: rest) = some (v, r) ∧ skipBlanks r = b :: rest := by
  obtain ⟨w, t, w', rfl, hw, ht, hw'⟩ := h
  simp only [List.length_append] at hn
  refine ⟨w' ++ b :: rest, ?_, ?_⟩
  · rw [List.append_assoc, List.append_assoc]
    exact hitem w t v _ hw ht (by omega) ((stops_cons hb rest).blanks hw')
  · rw [skipBlanks_append hw', skipBlanks_cons]
    rcases hb with rfl | rfl | rfl <;> rfl

/-- Things with commas between them are no more than the bytes that write them and one. -/
theorem Separated.length_le {α : Type} {item : Bytes → α → Prop} {t : Bytes} {as : List α}
    (h : Separated item t as) : as.length ≤ t.length + 1 := by
  induction h with
  | last => simp
  | more _ _ ih =>
    simp only [List.length_append, List.length_cons]
    omega

theorem items_complete {item : Bytes → Option (Json × Bytes)} {n : Nat} {value : Bytes → Json → Prop}
    (hitem : Takes item n value) {t : Bytes} {vs : List Json} (h : Separated (Padded value) t vs)
    (hn : t.length ≤ n) {m : Nat} (hm : vs.length ≤ m) (acc : List Json) (rest : Bytes) :
    items item m acc (t ++ 0x5d :: rest) = some (acc.reverse ++ vs, rest) := by
  -- the bound on the text is for the items, and the bound on their number for the loop
  induction h generalizing m acc with
  | last hv =>
    obtain ⟨m, rfl⟩ := Nat.exists_eq_add_of_le' hm
    obtain ⟨r, hread, hskip⟩ := padded_complete hitem hv hn (.inr (.inl rfl)) rest
    simp only [List.length_cons, List.length_nil, Nat.zero_add, items, hread, hskip, List.reverse_cons]
  | @more s v t vs hv _ ih =>
    obtain ⟨m, rfl⟩ := Nat.exists_eq_add_of_le' hm
    simp only [List.length_append, List.length_cons] at hn hm
    obtain ⟨r, hread, hskip⟩ := padded_complete hitem hv (by omega) (.inl rfl) (t ++ 0x5d :: rest)
    rw [List.append_assoc, List.cons_append]
    simp only [List.length_cons, ← Nat.add_assoc, items, hread, hskip]
    rw [ih (by omega) (by omega)]
    simp

theorem name_complete {w n w' : Bytes} {text : Bytes} (hw : Blanks w) (hn : Text n text) (hw' : Blanks w')
    (rest : Bytes) : name (w ++ 0x22 :: (n ++ 0x22 :: (w' ++ 0x3a :: rest))) = some (text, rest) := by
  have hquote : skipBlanks (w ++ 0x22 :: (n ++ 0x22 :: (w' ++ 0x3a :: rest))) =
      0x22 :: (n ++ 0x22 :: (w' ++ 0x3a :: rest)) := by
    rw [skipBlanks_append hw, skipBlanks_cons (by decide)]
  have hcolon : skipBlanks (w' ++ 0x3a :: rest) = 0x3a :: rest := by
    rw [skipBlanks_append hw', skipBlanks_cons (by decide)]
  unfold name
  rw [hquote]
  simp only [stringTail_complete hn, hcolon]

theorem members_complete {item : Bytes → Option (Json × Bytes)} {n : Nat} {value : Bytes → Json → Prop}
    (hitem : Takes item n value) {t : Bytes} {ms : List (Bytes × Json)} (h : Separated (Member value) t ms)
    (hn : t.length ≤ n) {m : Nat} (hm : ms.length ≤ m) (acc : List (Bytes × Json)) (rest : Bytes) :
    members item m acc (t ++ 0x7d :: rest) = some (acc.reverse ++ ms, rest) := by
  induction h generalizing m acc with
  | @last s mem hmem =>
    obtain ⟨m, rfl⟩ := Nat.exists_eq_add_of_le' hm
    obtain ⟨w, k, w', p, rfl, hw, hk, hw', hp⟩ := hmem
    simp only [List.length_append, List.length_cons] at hn
    obtain ⟨r, hread, hskip⟩ := padded_complete hitem hp (by omega) (.inr (.inr rfl)) rest
    have hname := name_complete hw hk hw' (p ++ 0x7d :: rest)
    simp only [List.append_assoc, List.cons_append, List.length_cons, List.length_nil, Nat.zero_add, members, hname,
      hread, hskip, List.reverse_cons]
  | @more s mem t ms hmem _ ih =>
    obtain ⟨m, rfl⟩ := Nat.exists_eq_add_of_le' hm
    obtain ⟨w, k, w', p, rfl, hw, hk, hw', hp⟩ := hmem
    simp only [List.length_append, List.length_cons] at hn hm
    obtain ⟨r, hread, hskip⟩ := padded_complete hitem hp (by omega) (.inl rfl) (t ++ 0x7d :: rest)
    have hname := name_complete hw hk hw' (p ++ 0x2c :: (t ++ 0x7d :: rest))
    simp only [List.append_assoc, List.cons_append, List.length_cons, ← Nat.add_assoc, members, hname, hread, hskip]
    rw [ih (by omega) (by omega)]
    simp

/-- The blanks in front of the first thing can be taken off. -/
theorem Separated.strip {α : Type} {item : Bytes → α → Prop} {t : Bytes} {as : List α} (h : Separated item t as)
    (hitem : ∀ s a, item s a → ∃ w b s', s = w ++ b :: s' ∧ Blanks w ∧ Opens b ∧ item (b :: s') a) :
    ∃ w b t', t = w ++ b :: t' ∧ Blanks w ∧ Opens b ∧ Separated item (b :: t') as := by
  cases h with
  | last ha =>
    obtain ⟨w, b, s', rfl, hw, hb, hs'⟩ := hitem _ _ ha
    exact ⟨w, b, s', rfl, hw, hb, .last hs'⟩
  | @more _ _ t _ ha hmore =>
    obtain ⟨w, b, s', rfl, hw, hb, hs'⟩ := hitem _ _ ha
    refine ⟨w, b, s' ++ 0x2c :: t, ?_, hw, hb, Separated.more hs' hmore⟩
    rw [List.append_assoc, List.cons_append]

theorem Padded.strip {depth : Nat} {s : Bytes} {v : Json} (h : Padded (Value depth) s v) :
    ∃ w b s', s = w ++ b :: s' ∧ Blanks w ∧ Opens b ∧ Padded (Value depth) (b :: s') v := by
  obtain ⟨w, t, w', rfl, hw, ht, hw'⟩ := h
  obtain ⟨b, t', rfl, hb⟩ := ht.head
  exact ⟨w, b, t' ++ w', rfl, hw, hb, [], b :: t', w', rfl, by simp [Blanks], ht, hw'⟩

theorem Member.strip {depth : Nat} {s : Bytes} {m : Bytes × Json} (h : Member (Value depth) s m) :
    ∃ w b s', s = w ++ b :: s' ∧ Blanks w ∧ Opens b ∧ Member (Value depth) (b :: s') m := by
  obtain ⟨w, n, w', t, rfl, hw, hn, hw', ht⟩ := h
  exact ⟨w, 0x22, _, rfl, hw, by unfold Opens; decide, [], n, w', t, rfl, by simp [Blanks], hn, hw', ht⟩

theorem arrayTail_complete {n depth : Nat} (hvalue : Takes (value n depth) n (Value depth)) {s : Bytes}
    {vs : List Json} (h : Separated (Padded (Value depth)) s vs) (hn : s.length < n) (rest : Bytes) :
    arrayTail (value n depth) n (s ++ 0x5d :: rest) = some (.array vs, rest) := by
  obtain ⟨w, b, t, rfl, hw, ⟨hblank, hclose, -⟩, hstripped⟩ := h.strip fun _ _ => Padded.strip
  have hlen := h.length_le
  rw [List.length_append] at hn hlen
  have hread := items_complete hvalue hstripped (by omega) (show vs.length ≤ n by omega) [] rest
  have hskip : skipBlanks (w ++ b :: t ++ 0x5d :: rest) = b :: t ++ 0x5d :: rest := by
    rw [List.append_assoc, skipBlanks_append hw, List.cons_append, skipBlanks_cons hblank]
  rw [arrayTail, hskip]
  split
  · rename_i he
    cases he
    exact absurd rfl hclose
  · rw [hread]
    rfl

theorem objectTail_complete {n depth : Nat} (hvalue : Takes (value n depth) n (Value depth)) {s : Bytes}
    {ms : List (Bytes × Json)} (h : Separated (Member (Value depth)) s ms) (hn : s.length < n) (rest : Bytes) :
    objectTail (value n depth) n (s ++ 0x7d :: rest) = some (.object ms, rest) := by
  obtain ⟨w, b, t, rfl, hw, ⟨hblank, -, hclose⟩, hstripped⟩ := h.strip fun _ _ => Member.strip
  have hlen := h.length_le
  rw [List.length_append] at hn hlen
  have hread := members_complete hvalue hstripped (by omega) (show ms.length ≤ n by omega) [] rest
  have hskip : skipBlanks (w ++ b :: t ++ 0x7d :: rest) = b :: t ++ 0x7d :: rest := by
    rw [List.append_assoc, skipBlanks_append hw, List.cons_append, skipBlanks_cons hblank]
  rw [objectTail, objectMembers, hskip]
  split
  · rename_i he
    cases he
    exact absurd rfl hclose
  · rw [hread]
    rfl

theorem container_complete {n depth : Nat} (hvalue : Takes (value n depth) n (Value depth)) {t : Bytes} {v : Json}
    (h : Container (Value depth) t v) (hn : t.length ≤ n) (rest : Bytes) :
    value n (depth + 1) (t ++ rest) = some (v, rest) := by
  have hclosed {w : Bytes} (hw : Blanks w) {b : UInt8} (hb : isBlank b = false) :
      skipBlanks (w ++ b :: rest) = b :: rest := by
    rw [skipBlanks_append hw, skipBlanks_cons hb]
  cases h with
  | noItems hw =>
    rw [List.cons_append, List.append_assoc, List.singleton_append, value.eq_def, skipBlanks_cons (by decide)]
    simp only [arrayTail, hclosed hw (show isBlank 0x5d = false by decide)]
  | items hvs =>
    simp only [List.length_cons, List.length_append] at hn
    rw [List.cons_append, List.append_assoc, List.singleton_append, value.eq_def, skipBlanks_cons (by decide)]
    exact arrayTail_complete hvalue hvs (by omega) rest
  | noMembers hw =>
    rw [List.cons_append, List.append_assoc, List.singleton_append, value.eq_def, skipBlanks_cons (by decide)]
    simp only [objectTail, objectMembers, hclosed hw (show isBlank 0x7d = false by decide), Option.map_some]
  | members hms =>
    simp only [List.length_cons, List.length_append] at hn
    rw [List.cons_append, List.append_assoc, List.singleton_append, value.eq_def, skipBlanks_cons (by decide)]
    exact objectTail_complete hvalue hms (by omega) rest

theorem value_skipBlanks (n depth : Nat) (s : Bytes) : value n depth (skipBlanks s) = value n depth s := by
  rw [value.eq_def n depth (skipBlanks s), value.eq_def n depth s, skipBlanks_skipBlanks]

theorem value_scalar (n depth : Nat) {t rest : Bytes} {v : Json} (h : Scalar t v) (hr : Stops rest) :
    value n depth (t ++ rest) = some (v, rest) := by
  have hread := scalar_complete h hr
  obtain ⟨b, t, rfl, ⟨hblank, -, -⟩, harray, hobject⟩ := h.head
  rw [List.cons_append] at hread ⊢
  rw [value.eq_def, skipBlanks_cons hblank]
  split
  · rename_i he; cases he; exact absurd rfl harray
  · rename_i he; cases he; exact absurd rfl hobject
  · exact hread

/-- The reader gives every value that the text in front writes. -/
theorem value_complete (n depth : Nat) : Takes (value n depth) n (Value depth) := by
  -- on the depth again; what is in a container is shorter than its text, so the bound stays the same
  induction depth with
  | zero =>
    intro w t v rest hw ht _ hr
    rw [← value_skipBlanks, skipBlanks_append hw, value_skipBlanks]
    exact value_scalar n 0 ht hr
  | succ depth ih =>
    intro w t v rest hw ht hn hr
    rw [← value_skipBlanks, skipBlanks_append hw, value_skipBlanks]
    rcases ht with ht | ht
    · exact value_scalar n _ ht hr
    · exact container_complete ih ht hn rest

/-- A text is read as a document exactly when it is one, and its value is the one that it writes. -/
theorem document_iff (s : Bytes) (v : Json) : document s = some v ↔ Document s v := by
  constructor
  · intro h
    unfold document at h
    split at h
    · rename_i v' rest hfirst
      split_ifs at h with hblank
      cases h
      obtain ⟨w, t, rfl, hw, ht⟩ := value_sound _ _ _ _ _ hfirst
      exact ⟨w, t, rest, rfl, hw, ht, (blanks_iff rest).2 hblank⟩
    · cases h
  · rintro ⟨w, t, w', rfl, hw, ht, hw'⟩
    have hlen : t.length ≤ (w ++ (t ++ w')).length := by simp only [List.length_append]; omega
    have hfirst : first (w ++ (t ++ w')) = some (v, w') :=
      value_complete _ _ w t v w' hw ht hlen (stops_blanks hw')
    simp only [document, hfirst, if_pos ((blanks_iff w').1 hw')]

end Grammar

end CounterLedger.Json
