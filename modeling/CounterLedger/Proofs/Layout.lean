/-
Which layouts can be taken apart. Two pairs of a namespace and a key have the same layout in one way
only: one namespace runs over the end of the other by a multiple of 65536 bytes, so that both have the
same two bytes of length, and swallows the frame and the start of the other key. Hence namespaces of
less than 65536 bytes are never confused, whatever the keys, and a longer one always is.
-/
import CounterLedger.Proofs.Namespace

namespace CounterLedger

namespace Bytes

/-- Two bytes write the remainder modulo 65536. -/
theorem littleEndian_two_eq_iff {m n : Nat} :
    littleEndian 2 m = littleEndian 2 n ↔ m % 65536 = n % 65536 := by
  constructor
  · intro h
    have hbytes : (UInt8.ofNat m).toNat = (UInt8.ofNat n).toNat ∧
        (UInt8.ofNat (m / 256)).toNat = (UInt8.ofNat (n / 256)).toNat := by
      simp only [littleEndian, List.cons.injEq, and_true] at h
      exact ⟨congrArg _ h.1, congrArg _ h.2⟩
    simp only [UInt8.toNat_ofNat'] at hbytes
    omega
  · intro h
    simp only [littleEndian, List.cons.injEq, and_true, ← UInt8.toNat_inj, UInt8.toNat_ofNat']
    omega

/-- Any two bytes are the length of some byte string. -/
theorem exists_length_eq (x y : UInt8) : ∃ s : Bytes, littleEndian 2 s.length = [x, y] := by
  refine ⟨List.replicate (x.toNat + 256 * y.toNat) 0, ?_⟩
  have hx := x.toNat_lt
  have hy := y.toNat_lt
  simp only [littleEndian, List.length_replicate, List.cons.injEq, and_true, ← UInt8.toNat_inj, UInt8.toNat_ofNat']
  omega

end Bytes

namespace Namespace

theorem framed_append (s rest : Bytes) :
    framed s ++ rest = Bytes.littleEndian 2 s.length ++ (s ++ rest) := List.append_assoc ..

theorem framed_inj {k l : Bytes} (h : framed k = framed l) : k = l :=
  (List.append_inj h (by simp)).2

/-- The namespace `b` begins with `a` and runs over its end: it takes in the length of the key `k`
and the start of it, 65536 bytes or a multiple of that, and what is left of `k` is the frame of `l`. -/
def Overruns (a k b l : Bytes) : Prop :=
  ∃ u : Bytes, 65536 ∣ u.length + 2 ∧ b = a ++ Bytes.littleEndian 2 k.length ++ u ∧ k = u ++ framed l

theorem Overruns.length_lt {a k b l : Bytes} (h : Overruns a k b l) : a.length + 65536 ≤ b.length := by
  obtain ⟨u, hu, rfl, -⟩ := h
  have hle := Nat.le_of_dvd (by omega) hu
  simp only [List.length_append, Bytes.length_littleEndian]
  omega

theorem Overruns.layout_eq {a k b l : Bytes} (h : Overruns a k b l) : layout a k = layout b l := by
  obtain ⟨u, hu, rfl, hk⟩ := h
  have hlength : Bytes.littleEndian 2 a.length =
      Bytes.littleEndian 2 (a ++ Bytes.littleEndian 2 k.length ++ u).length := by
    rw [Bytes.littleEndian_two_eq_iff]
    simp only [List.length_append, Bytes.length_littleEndian]
    omega
  calc layout a k
      = Bytes.littleEndian 2 a.length ++ (a ++ (Bytes.littleEndian 2 k.length ++ k)) := framed_append a (framed k)
    _ = Bytes.littleEndian 2 a.length ++ (a ++ (Bytes.littleEndian 2 k.length ++ (u ++ framed l))) := by rw [← hk]
    _ = layout (a ++ Bytes.littleEndian 2 k.length ++ u) l := by
        rw [hlength, layout, framed_append]
        simp only [List.append_assoc]

/-- A layout says which its pair is, up to an overrun of the shorter namespace. -/
theorem eq_or_overruns {a k b l : Bytes} (hle : a.length ≤ b.length) (h : layout a k = layout b l) :
    (a = b ∧ k = l) ∨ Overruns a k b l := by
  rw [layout, layout, framed_append, framed_append] at h
  obtain ⟨hlengths, h⟩ := List.append_inj h (by simp)
  rw [Bytes.littleEndian_two_eq_iff] at hlengths
  obtain ⟨v, rfl⟩ := List.prefix_of_prefix_length_le (List.prefix_append a _) (h ▸ List.prefix_append b _) hle
  rw [List.append_assoc, List.append_cancel_left_eq] at h
  obtain rfl | hne := eq_or_ne v []
  · exact .inl ⟨(List.append_nil a).symm, framed_inj h⟩
  · -- what the longer namespace has more is at least as long as the length of the key
    have hpos := List.length_pos_iff.2 hne
    rw [List.length_append] at hlengths
    have hdvd : 65536 ∣ v.length := by omega
    have htwo : 2 ≤ v.length := le_trans (by decide) (Nat.le_of_dvd hpos hdvd)
    rw [framed, ← List.take_append_drop 2 v, List.append_assoc] at h
    obtain ⟨hframe, hkey⟩ := List.append_inj h (by simp [htwo])
    refine .inr ⟨v.drop 2, ?_, ?_, hkey⟩
    · rw [List.length_drop, Nat.sub_add_cancel htwo]
      exact hdvd
    · rw [hframe, List.append_assoc, List.take_append_drop]

theorem layout_eq_cases {a k b l : Bytes} :
    layout a k = layout b l ↔ (a = b ∧ k = l) ∨ Overruns a k b l ∨ Overruns b l a k := by
  constructor
  · intro h
    rcases Nat.le_total a.length b.length with hle | hle
    · exact (eq_or_overruns hle h).imp_right .inl
    · rcases eq_or_overruns hle h.symm with ⟨rfl, rfl⟩ | hover
      · exact .inl ⟨rfl, rfl⟩
      · exact .inr (.inr hover)
  · rintro (⟨rfl, rfl⟩ | hover | hover)
    · rfl
    · exact hover.layout_eq
    · exact hover.layout_eq.symm

/-- Short namespaces are never confused, however long the keys are. -/
theorem eq_of_layout_eq {a k b l : Bytes} (ha : a.length < 65536) (hb : b.length < 65536)
    (h : layout a k = layout b l) : a = b ∧ k = l := by
  rcases layout_eq_cases.1 h with heq | hover | hover
  · exact heq
  · have := hover.length_lt
    omega
  · have := hover.length_lt
    omega

/-- A long namespace overruns the one that ends 65536 bytes earlier. -/
theorem exists_overrun {b : Bytes} (hb : 65536 ≤ b.length) : ∃ a k l, Overruns a k b l := by
  obtain ⟨a, t, rfl, ht⟩ : ∃ a t, b = a ++ t ∧ t.length = 65536 :=
    ⟨b.take (b.length - 65536), b.drop (b.length - 65536), (List.take_append_drop _ _).symm,
      by rw [List.length_drop]; omega⟩
  obtain _ | ⟨x, _ | ⟨y, u⟩⟩ := t
  · cases ht
  · cases ht
  obtain ⟨l, hl⟩ := Bytes.exists_length_eq x y
  have hu : u.length + 2 = 65536 := by simpa using ht
  -- the swallowed key is as long as `l` modulo 65536, so its two bytes of length are `x` and `y`
  have hk : Bytes.littleEndian 2 (u ++ framed l).length = [x, y] := by
    rw [← hl, Bytes.littleEndian_two_eq_iff]
    simp only [framed, List.length_append, Bytes.length_littleEndian]
    omega
  exact ⟨a, u ++ framed l, l, u, ⟨1, by omega⟩, by rw [hk]; simp, rfl⟩

/-- Different pairs have the same layout exactly when one namespace overruns the other. So pairs of
namespaces of less than 65536 bytes share a storage key through a collision of digests only, however
long their keys are, while every longer namespace has a layout in common with a shorter one. -/
theorem layout_eq_iff_overruns (a k b l : Bytes) :
    (layout a k = layout b l ↔ (a = b ∧ k = l) ∨ Overruns a k b l ∨ Overruns b l a k) ∧
    (a.length < 65536 → b.length < 65536 → layout a k = layout b l → a = b ∧ k = l) ∧
    (a.length < 65536 → b.length < 65536 → (a, k) ≠ (b, l) → key a k = key b l →
      layout a k ≠ layout b l ∧ Sha256.digest (layout a k) = Sha256.digest (layout b l)) ∧
    (65536 ≤ b.length → ∃ a k l, a.length < b.length ∧ layout a k = layout b l) := by
  refine ⟨layout_eq_cases, eq_of_layout_eq, ?_, fun hb => ?_⟩
  · intro ha hb hne hkey
    refine ⟨fun h => hne ?_, hkey⟩
    obtain ⟨rfl, rfl⟩ := eq_of_layout_eq ha hb h
    rfl
  · obtain ⟨a, k, l, hover⟩ := exists_overrun hb
    have := hover.length_lt
    exact ⟨a, k, l, by omega, hover.layout_eq⟩

/-- A namespace of 65536 zero bytes and the empty key share their storage key with the empty namespace
and a key of 65536 zero bytes. -/
theorem zeros_share_layout :
    let zeros : Bytes := List.replicate 65536 0
    (zeros, ([] : Bytes)) ≠ ([], zeros) ∧ layout zeros [] = layout [] zeros ∧ key zeros [] = key [] zeros := by
  intro zeros
  have hlength : zeros.length = 65536 := List.length_replicate
  have hover : Overruns [] zeros zeros [] := by
    refine ⟨List.replicate 65534 0, by rw [List.length_replicate], ?_, ?_⟩
    · have hzero : Bytes.littleEndian 2 zeros.length = List.replicate 2 0 := by
        rw [hlength]
        decide
      rw [hzero, List.nil_append, List.replicate_append_replicate]
    · have hzero : framed [] = List.replicate 2 0 := by decide
      rw [hzero, List.replicate_append_replicate]
  have hlayout : layout zeros [] = layout [] zeros := hover.layout_eq.symm
  refine ⟨fun h => ?_, hlayout, congrArg Sha256.digest hlayout⟩
  have hnil := congrArg (fun p : Bytes × Bytes => p.1.length) h
  rw [hlength] at hnil
  cases hnil

end Namespace

end CounterLedger
