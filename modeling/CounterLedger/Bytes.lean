/-
Byte strings. Keys, messages, addresses and texts are all lists of bytes. They are ordered
lexicographically by byte value, which is the order in which a bucket is walked.
-/

namespace CounterLedger

/-- A string of bytes, not necessarily valid UTF-8. -/
abbrev Bytes := List UInt8

/-- A byte string that may be absent. Absent and empty are different values. -/
abbrev Payload := Option Bytes

/-- The UTF-8 bytes of a text. -/
def utf8 (s : String) : Bytes := s.toUTF8.data.toList

namespace Bytes

/-- The lowercase hexadecimal digit of a number below 16. -/
def hexDigit (n : Nat) : UInt8 :=
  if n < 10 then UInt8.ofNat (48 + n) else UInt8.ofNat (87 + n)

/-- Two lowercase hexadecimal digits for each byte. -/
def toHex (b : Bytes) : Bytes :=
  b.flatMap fun x => [hexDigit (x.toNat / 16), hexDigit (x.toNat % 16)]

/-! ## Words -/

/-- The `n` low bytes of a number, least significant first. -/
def littleEndian : Nat → Nat → Bytes
  | 0, _ => []
  | n + 1, v => UInt8.ofNat v :: littleEndian n (v / 256)

/-- The number written by the bytes, least significant first. -/
def ofLittleEndian : Bytes → Nat
  | [] => 0
  | b :: rest => b.toNat + 256 * ofLittleEndian rest

/-- The `n` low bytes of a number, most significant first. -/
def bigEndian (n v : Nat) : Bytes := (littleEndian n v).reverse

/-- The number written by the bytes, most significant first. -/
def ofBigEndian (b : Bytes) : Nat := ofLittleEndian b.reverse

/-! ## Order -/

/-- How two byte strings are ordered, found in one pass over what they share. -/
def order : Bytes → Bytes → Ordering
  | [], [] => .eq
  | [], _ :: _ => .lt
  | _ :: _, [] => .gt
  | a :: s, b :: t => if a < b then .lt else if a = b then order s t else .gt

theorem order_eq_eq {s t : Bytes} : order s t = .eq ↔ s = t := by
  fun_induction order s t <;> simp_all
  intro h
  subst h
  simp_all

theorem order_eq_lt {s t : Bytes} : order s t = .lt ↔ s < t := by
  fun_induction order s t <;> simp_all [List.cons_lt_cons_iff]

theorem order_eq_gt {s t : Bytes} : order s t = .gt ↔ t < s := by
  fun_induction order s t with
  | case1 | case2 | case3 => simp_all
  | case4 a s b t h =>
    have hne : ¬ b = a := fun e => UInt8.lt_irrefl a (e ▸ h)
    simp [List.cons_lt_cons_iff, hne, UInt8.le_of_lt h]
  | case5 s b t h ih => simp [ih]
  | case6 a s b t h hne =>
    have hlt : b < a := UInt8.lt_of_le_of_ne (UInt8.not_lt.1 h) (fun e => hne e.symm)
    simp [List.cons_lt_cons_iff, hlt]

/-! ## Pieces -/

/-- Flips the given bits of the first byte; the empty string stays as it is. -/
def flipFirst (mask : UInt8) : Bytes → Bytes
  | [] => []
  | b :: rest => (b ^^^ mask) :: rest

/-- The parts between the separators; there is one more part than separators. -/
def splitOn (sep : UInt8) : Bytes → List Bytes
  | [] => [[]]
  | b :: rest =>
    if b = sep then [] :: splitOn sep rest
    else match splitOn sep rest with
      | [] => [[b]]
      | part :: parts => (b :: part) :: parts

/-- The parts joined by a separator. -/
def join (sep : Bytes) : List Bytes → Bytes
  | [] => []
  | [part] => part
  | part :: parts => part ++ sep ++ join sep parts

end Bytes

end CounterLedger
