/-
Namespaced keys. Words written in bytes read back; a key behind its namespace can be taken apart
again as long as both are shorter than their two bytes of length can say, so that two different
pairs share a storage key only if their digests collide. Every storage key has 32 bytes.
-/
import CounterLedger.Store.Namespace
import Mathlib.Tactic

namespace CounterLedger

/-! ## Words in bytes -/

namespace Bytes

@[simp] theorem length_littleEndian (n v : Nat) : (littleEndian n v).length = n := by
  induction n generalizing v with
  | zero => rfl
  | succ n ih => simp [littleEndian, ih]

@[simp] theorem length_bigEndian (n v : Nat) : (bigEndian n v).length = n := by
  simp [bigEndian]

theorem ofLittleEndian_littleEndian {n v : Nat} (h : v < 256 ^ n) :
    ofLittleEndian (littleEndian n v) = v := by
  induction n generalizing v with
  | zero =>
    have : v = 0 := by simpa using h
    subst this
    rfl
  | succ n ih =>
    have hq : v / 256 < 256 ^ n := by
      rw [pow_succ] at h
      omega
    have hb : (UInt8.ofNat v).toNat = v % 256 := UInt8.toNat_ofNat'
    simp only [littleEndian, ofLittleEndian]
    rw [ih hq, hb]
    exact Nat.mod_add_div v 256

theorem ofBigEndian_bigEndian {n v : Nat} (h : v < 256 ^ n) : ofBigEndian (bigEndian n v) = v := by
  unfold ofBigEndian bigEndian
  rw [List.reverse_reverse]
  exact ofLittleEndian_littleEndian h

end Bytes

namespace Namespace

/-! ## Layouts -/

/-- What a short byte string and the bytes after it are can be told from the string in its frame. -/
theorem framed_append_inj {a b r s : Bytes} (ha : a.length < 65536) (hb : b.length < 65536)
    (h : framed a ++ r = framed b ++ s) : a = b ∧ r = s := by
  unfold framed at h
  rw [List.append_assoc, List.append_assoc] at h
  obtain ⟨hl, h⟩ := List.append_inj h (by simp)
  have hlen : a.length = b.length := by
    rw [← Bytes.ofLittleEndian_littleEndian (n := 2) (v := a.length) (by omega), hl,
      Bytes.ofLittleEndian_littleEndian (by omega)]
  exact List.append_inj h hlen

/-- The layout of a short namespace and a short key says which they are. -/
theorem layout_inj {a k b l : Bytes} (ha : a.length < 65536) (hk : k.length < 65536)
    (hb : b.length < 65536) (hl : l.length < 65536) (h : layout a k = layout b l) : a = b ∧ k = l := by
  obtain ⟨hab, hkl⟩ := framed_append_inj ha hb h
  obtain ⟨hkl, -⟩ := framed_append_inj (r := []) (s := []) hk hl (by simpa using hkl)
  exact ⟨hab, hkl⟩

/-- The pairs of a namespace and a key in `used` are short, and no two different layouts among
them have the same digest. -/
structure Distinct (used : List (Bytes × Bytes)) : Prop where
  short : ∀ p ∈ used, p.1.length < 65536 ∧ p.2.length < 65536
  noCollision : ∀ p ∈ used, ∀ q ∈ used,
    Sha256.digest (layout p.1 p.2) = Sha256.digest (layout q.1 q.2) → layout p.1 p.2 = layout q.1 q.2

theorem Distinct.mono {used more : List (Bytes × Bytes)} (h : Distinct more)
    (hsub : ∀ p ∈ used, p ∈ more) : Distinct used :=
  ⟨fun p hp => h.short p (hsub p hp), fun p hp q hq => h.noCollision p (hsub p hp) q (hsub q hq)⟩

theorem Distinct.split {p : Bytes × Bytes} {used more : List (Bytes × Bytes)}
    (h : Distinct (p :: (used ++ more))) : Distinct (p :: used) ∧ Distinct (p :: more) :=
  ⟨h.mono (by simp; tauto), h.mono (by simp; tauto)⟩

/-- Pairs that are told apart have different storage keys. -/
theorem Distinct.key_inj {used : List (Bytes × Bytes)} (h : Distinct used) {a k b l : Bytes}
    (hp : (a, k) ∈ used) (hq : (b, l) ∈ used) (he : key a k = key b l) : a = b ∧ k = l := by
  obtain ⟨ha, hk⟩ := h.short _ hp
  obtain ⟨hb, hl⟩ := h.short _ hq
  exact layout_inj ha hk hb hl (h.noCollision _ hp _ hq he)

/-! ## Storage keys -/

@[simp] theorem length_key (space k : Bytes) : (key space k).length = 32 := by
  simp [key, Sha256.digest]

theorem key_ne_nil (space k : Bytes) : key space k ≠ [] := by
  intro h
  have := length_key space k
  rw [h] at this
  cases this

end Namespace

end CounterLedger
