/-
Decimal numerals. A printed number is made of digits, only zero having a leading zero. A literal is
read as a word exactly when it is made of digits and the number that they write fits. On a command
line, where a leading zero would mark another base, a printed number is read back as well.
-/
import CounterLedger.Text.Numeral
import Mathlib.Tactic

namespace CounterLedger.Numeral

/-! ## Printed numbers -/

/-- The digit of a number below ten. -/
def digit (n : Nat) : UInt8 := UInt8.ofNat (48 + n)

theorem digit_eq_digitChar : ∀ n < 10, UInt8.ofNat n.digitChar.toNat = digit n := by decide

theorem isDigit_digit : ∀ n < 10, isDigit (digit n) = true := by decide

theorem toNat_digit : ∀ n < 10, (digit n).toNat - 48 = n := by decide

theorem decimal_of_lt {n : Nat} (h : n < 10) : decimal n = [digit n] := by
  rw [decimal, Nat.toDigits_of_lt_base h, List.map_singleton, digit_eq_digitChar n h]

theorem decimal_of_le {n : Nat} (h : 10 ≤ n) : decimal n = decimal (n / 10) ++ [digit (n % 10)] := by
  rw [decimal, Nat.toDigits_of_base_le (by decide) h, List.map_append, List.map_singleton,
    digit_eq_digitChar _ (Nat.mod_lt _ (by decide)), decimal]

theorem decimal_ne_nil (n : Nat) : decimal n ≠ [] := by
  simp [decimal, Nat.toDigits_ne_nil]

theorem isDigit_of_mem_decimal (n : Nat) : ∀ b ∈ decimal n, isDigit b = true := by
  induction n using Nat.strong_induction_on with
  | _ n ih =>
  by_cases h : n < 10
  · rw [decimal_of_lt h]
    simpa using isDigit_digit n h
  · rw [decimal_of_le (by omega)]
    intro b hb
    rcases List.mem_append.1 hb with hb | hb
    · exact ih (n / 10) (by omega) b hb
    · rw [List.mem_singleton.1 hb]
      exact isDigit_digit _ (Nat.mod_lt _ (by decide))

/-- Only zero is written with a leading zero. -/
theorem decimal_cons (n : Nat) :
    ∃ b rest, decimal n = b :: rest ∧ isDigit b = true ∧ (b = 0x30 → rest = []) := by
  induction n using Nat.strong_induction_on with
  | _ n ih =>
  by_cases h : n < 10
  · exact ⟨_, _, decimal_of_lt h, isDigit_digit n h, fun _ => rfl⟩
  · obtain ⟨b, rest, he, hb, hz⟩ := ih (n / 10) (by omega)
    refine ⟨b, rest ++ [digit (n % 10)], by rw [decimal_of_le (by omega), he, List.cons_append], hb, ?_⟩
    intro hb
    -- a numeral with a single zero for its higher digits would stand for a number below ten
    obtain rfl := hb
    exfalso
    rw [hz rfl] at he
    by_cases h' : n / 10 < 10
    · rw [decimal_of_lt h', List.cons.injEq] at he
      have : ∀ m < 10, digit m = 0x30 → m = 0 := by decide
      have := this _ h' he.1
      omega
    · rw [decimal_of_le (by omega)] at he
      have hl := congrArg List.length he
      have := List.length_pos_iff.2 (decimal_ne_nil (n / 10 / 10))
      simp only [List.length_append, List.length_cons, List.length_nil] at hl
      omega

/-! ## Words -/

theorem le_foldl_digits (m : Nat) (s : Bytes) : m ≤ s.foldl (fun n b => 10 * n + (b.toNat - 48)) m := by
  induction s generalizing m with
  | nil => exact Nat.le_refl m
  | cons b s ih =>
    have h := ih (10 * m + (b.toNat - 48))
    rw [List.foldl_cons]
    omega

/-- Digits are read on from a number as long as all of them together fit, and only then. -/
theorem wordFrom_eq_some_iff (m k : Nat) (s : Bytes) :
    wordFrom m s = some k ↔
      (∀ b ∈ s, isDigit b = true) ∧ s.foldl (fun n b => 10 * n + (b.toNat - 48)) m = k ∧ k < UInt64.size := by
  induction s generalizing m with
  | nil =>
    rw [wordFrom, List.foldl_nil]
    split_ifs with h
    · simp only [Option.some.injEq]
      exact ⟨fun hk => ⟨by simp, hk, hk ▸ h⟩, fun hk => hk.2.1⟩
    · exact ⟨fun hk => (by cases hk), fun ⟨_, hk, hlt⟩ => absurd (hk ▸ hlt) h⟩
  | cons b s ih =>
    rw [wordFrom, List.foldl_cons, List.forall_mem_cons]
    split_ifs with h
    · rw [Bool.and_eq_true, decide_eq_true_eq] at h
      rw [ih]
      exact ⟨fun ⟨hs, hk⟩ => ⟨⟨h.1, hs⟩, hk⟩, fun ⟨hs, hk⟩ => ⟨hs.2, hk⟩⟩
    · refine ⟨fun hk => (by cases hk), ?_⟩
      rintro ⟨⟨hb, -⟩, hk, hlt⟩
      -- a number that does not fit only grows
      have hgrows := le_foldl_digits (10 * m + (b.toNat - 48)) s
      refine absurd ?_ h
      rw [Bool.and_eq_true, decide_eq_true_eq]
      exact ⟨hb, by omega⟩

theorem word?_eq_some_iff (s : Bytes) (n : UInt64) :
    word? s = some n ↔ s ≠ [] ∧ (∀ b ∈ s, isDigit b = true) ∧ ofDigits s = n.toNat := by
  unfold word?
  split_ifs with hs
  · exact ⟨fun h => (by cases h), fun h => absurd hs h.1⟩
  · rw [Option.map_eq_some_iff]
    constructor
    · rintro ⟨k, hk, rfl⟩
      obtain ⟨hdigits, hvalue, hlt⟩ := (wordFrom_eq_some_iff 0 k s).1 hk
      refine ⟨hs, hdigits, ?_⟩
      rw [UInt64.toNat_ofNat_of_lt' hlt]
      exact hvalue
    · rintro ⟨-, hdigits, hvalue⟩
      exact ⟨n.toNat, (wordFrom_eq_some_iff 0 _ s).2 ⟨hdigits, hvalue, n.toNat_lt_size⟩, UInt64.ofNat_toNat⟩

theorem ofDigits_append (s t : Bytes) :
    ofDigits (s ++ t) = t.foldl (fun n b => 10 * n + (b.toNat - 48)) (ofDigits s) :=
  List.foldl_append

theorem ofDigits_decimal (n : Nat) : ofDigits (decimal n) = n := by
  induction n using Nat.strong_induction_on with
  | _ n ih =>
  by_cases hn : n < 10
  · rw [decimal_of_lt hn, ofDigits, List.foldl_cons, List.foldl_nil, toNat_digit n hn]
    omega
  · have hd := toNat_digit (n % 10) (Nat.mod_lt n (by decide))
    rw [decimal_of_le (by omega), ofDigits_append, ih (n / 10) (by omega), List.foldl_cons, List.foldl_nil, hd]
    omega

/-- A printed word is read back. -/
theorem word?_decimal (n : UInt64) : word? (decimal n.toNat) = some n :=
  (word?_eq_some_iff _ n).2 ⟨decimal_ne_nil _, isDigit_of_mem_decimal _, ofDigits_decimal _⟩

/-! ## Numerals of a command line -/

theorem toNat_of_isDigit {b : UInt8} (h : isDigit b = true) : 48 ≤ b.toNat ∧ b.toNat ≤ 57 := by
  simpa [isDigit, UInt8.le_iff_toNat_le] using h

/-- Digits in base ten are read on from a number when all of them together fit. -/
theorem digits_ten {m : Nat} {s : Bytes} (hs : ∀ b ∈ s, isDigit b = true)
    (hfits : s.foldl (fun n b => 10 * n + (b.toNat - 48)) m < UInt64.size) :
    digits 10 m s = .ok (s.foldl (fun n b => 10 * n + (b.toNat - 48)) m) := by
  induction s generalizing m with
  | nil => rfl
  | cons b s ih =>
    obtain ⟨hb, hs⟩ := List.forall_mem_cons.1 hs
    obtain ⟨hlow, hhigh⟩ := toNat_of_isDigit hb
    have hunderscore : b ≠ 0x5f := by
      rintro rfl
      cases hb
    have hvalue : digitValue b = some (b.toNat - 48) := if_pos hb
    have hgrows := le_foldl_digits (10 * m + (b.toNat - 48)) s
    rw [List.foldl_cons] at hfits ⊢
    rw [digits, if_neg hunderscore, hvalue]
    simp only
    rw [if_neg (by omega), if_neg (by omega)]
    exact ih hs hfits

/-- A printed number that fits is read back: it has no underscores, and a leading zero is all of it. -/
theorem unsigned_decimal {n : Nat} (h : n < UInt64.size) : unsigned (decimal n) = .ok n := by
  have hdigits := isDigit_of_mem_decimal n
  have hvalue : (decimal n).foldl (fun n b => 10 * n + (b.toNat - 48)) 0 = n := ofDigits_decimal n
  have hplain : (decimal n).contains 0x5f = false := by
    rw [Bool.eq_false_iff, ne_eq, List.contains_iff_mem]
    intro hmem
    cases hdigits _ hmem
  have hread : digits (splitBase (decimal n)).1 0 (splitBase (decimal n)).2 = .ok n := by
    obtain ⟨b, rest, he, -, hzero⟩ := decimal_cons n
    by_cases hb : b = 0x30
    · -- the zero alone marks base eight, and no digits follow
      obtain rfl := hzero hb
      subst hb
      rw [he] at hvalue ⊢
      cases hvalue
      rfl
    · have hsplit : splitBase (decimal n) = (10, decimal n) := by
        rw [he]
        unfold splitBase
        split
        · rename_i hc
          exact absurd (List.cons.inj hc).1 hb
        · rename_i hc
          exact absurd (List.cons.inj hc).1 hb
        · rfl
      rw [hsplit, digits_ten hdigits (by rw [hvalue]; exact h), hvalue]
  unfold unsigned
  rw [if_neg (decimal_ne_nil n)]
  simp only [hread, hplain, Bool.false_and, Bool.false_eq_true, if_false]

end CounterLedger.Numeral
