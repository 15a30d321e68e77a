/-
The records of the counter contract survive storage: reading a printed record gives it back, with
every text repaired. A repaired owner is therefore stable, and so is the owner of any record that can
be read at all, since the reader repairs every text that it takes in. The version record of the
contract comes back as it was written.
-/
import CounterLedger.Counter.Handler
import CounterLedger.Proofs.Json.RoundTrip

namespace CounterLedger

namespace Json

/-! ## Texts that are read -/

namespace Grammar

theorem Text.repaired {s text : Bytes} (h : Text s text) : Utf8.repair text = text := by
  obtain ⟨ms, -, rfl⟩ := h
  exact Utf8.repair_repair _

theorem Value.text_repaired {depth : Nat} {s text : Bytes} (h : Value depth s (.string text)) :
    Utf8.repair text = text := by
  have hscalar : Scalar s (.string text) := by
    cases depth with
    | zero => exact h
    | succ depth =>
      rcases h with h | h
      · exact h
      · cases h
  cases hscalar with
  | string htext => exact htext.repaired

theorem Separated.exists_item {α : Type} {item : Bytes → α → Prop} {s : Bytes} {as : List α}
    (h : Separated item s as) : ∀ a ∈ as, ∃ t, item t a := by
  induction h with
  | @last s _ ha =>
    intro a' ha'
    obtain rfl := List.mem_singleton.1 ha'
    exact ⟨s, ha⟩
  | @more s _ _ _ ha _ ih =>
    intro a' ha'
    rcases List.mem_cons.1 ha' with rfl | ha'
    · exact ⟨s, ha⟩
    · exact ih a' ha'

/-- The texts in the members of a document are repaired. -/
theorem Document.text_repaired {s : Bytes} {ms : List (Bytes × Json)} (h : Document s (.object ms)) :
    ∀ m ∈ ms, ∀ text, m.2 = .string text → Utf8.repair text = text := by
  intro m hm text htext
  obtain ⟨w, t, w', rfl, -, ht, -⟩ := h
  rcases (ht : Value (9999 + 1) t _) with hscalar | hcontainer
  · cases hscalar
  · cases hcontainer with
    | noMembers => cases hm
    | members hms =>
      obtain ⟨u, _, _, _, p, rfl, -, -, -, hp⟩ := hms.exists_item m hm
      obtain ⟨_, v, _, rfl, -, hv, -⟩ := hp
      rw [htext] at hv
      exact hv.text_repaired

end Grammar

/-- What every member keeps is true of a record that is filled. -/
theorem foldlM_member_keeps {ρ : Type} {member : ρ → Bytes → Json → Except ReadError ρ} {P : ρ → Prop}
    {ms : List (Bytes × Json)} (hstep : ∀ m ∈ ms, ∀ r r', P r → member r m.1 m.2 = .ok r' → P r')
    {r r' : ρ} (hr : P r) (h : ms.foldlM (fun r m => member r m.1 m.2) r = .ok r') : P r' := by
  induction ms generalizing r with
  | nil =>
    cases h
    exact hr
  | cons m ms ih =>
    rw [List.foldlM_cons] at h
    cases hm : member r m.1 m.2 with
    | error e =>
      rw [hm] at h
      cases h
    | ok r₁ =>
      rw [hm] at h
      have hr₁ := hstep m List.mem_cons_self r r₁ hr hm
      exact ih (fun m' hm' => hstep m' (List.mem_cons_of_mem _ hm')) hr₁ h

/-- What members with repaired texts keep is true of every record that is read. -/
theorem readDocument_keeps {ρ : Type} {member : ρ → Bytes → Json → Except ReadError ρ} {empty : ρ} {P : ρ → Prop}
    (hstep : ∀ r r' name v, (∀ text, v = .string text → Utf8.repair text = text) → P r → member r name v = .ok r' → P r')
    (hempty : P empty) {data : Bytes} {r : ρ} (h : readDocument (fill member empty) data = .ok r) : P r := by
  unfold readDocument at h
  split at h
  · rename_i v hdoc
    cases v with
    | null =>
      cases h
      exact hempty
    | object ms =>
      have htexts := ((Grammar.document_iff _ _).1 hdoc).text_repaired
      exact foldlM_member_keeps (fun m hm r r' hr hmember => hstep r r' m.1 m.2 (htexts m hm) hr hmember) hempty h
    | _ => cases h
  · cases h

end Json

namespace Counter.State

/-- The record as it comes back from storage. -/
def restored (s : State) : State := { s with owner := ⟨Utf8.repair s.owner.bytes⟩ }

theorem decode_encode (s : State) : decode (encode s) = .ok s.restored := by
  have hdoc : Json.document s.encode = some (.object [(Utf8.repair (utf8 "owner"), .string (Utf8.repair s.owner.bytes)),
      (Utf8.repair (utf8 "counter"), Json.ofWord s.counter)]) := by
    refine Json.document_render ?_
    exact .cons ⟨rfl, Json.value_string _ _⟩ (.cons ⟨rfl, Json.value_number _ _⟩ .nil)
  have howner : Fold.same (utf8 "owner") (Utf8.repair (utf8 "owner")) = true := by decide
  have hcounter : Fold.same (utf8 "counter") (Utf8.repair (utf8 "counter")) = true := by decide
  have hother : Fold.same (utf8 "owner") (Utf8.repair (utf8 "counter")) = false := by decide
  rw [decode, Json.readDocument, hdoc]
  simp [ofJson, Json.fill, member, howner, hcounter, hother, Address.ofJson, Json.asText?, Json.ofWord, Json.asWord?,
    Numeral.word?_decimal, restored, bind, Except.bind, pure, Except.pure]

theorem restored_eq_self_iff (s : State) : s.restored = s ↔ Utf8.repair s.owner.bytes = s.owner.bytes := by
  obtain ⟨⟨owner⟩, n⟩ := s
  simp [restored]

theorem member_restored {s s' : State} {name : Bytes} {v : Json}
    (hv : ∀ text, v = .string text → Utf8.repair text = text) (hs : s.restored = s)
    (h : s.member name v = .ok s') : s'.restored = s' := by
  rw [restored_eq_self_iff] at hs ⊢
  unfold member at h
  split_ifs at h
  · -- the owner is taken from the member, and is empty for a null
    cases v with
    | string text =>
      cases h
      exact hv text rfl
    | null =>
      cases h
      rfl
    | _ => cases h
  · cases hn : v.asWord? with
    | error e =>
      rw [hn] at h
      cases h
    | ok n =>
      rw [hn] at h
      cases h
      exact hs
  · cases h
    exact hs

/-- A record that has been read, from whatever text, comes back from storage as it is. -/
theorem decode_restored {data : Bytes} {s : State} (h : decode data = .ok s) : s.restored = s :=
  Json.readDocument_keeps (P := fun s : State => s.restored = s) (fun _ _ _ _ => member_restored) rfl h

end Counter.State

namespace Version

theorem decode_encode (v : Version) :
    decode (encode v) = .ok ⟨Utf8.repair v.contract, Utf8.repair v.version⟩ := by
  have hdoc : Json.document v.encode = some (.object [(Utf8.repair (utf8 "contract"), .string (Utf8.repair v.contract)),
      (Utf8.repair (utf8 "version"), .string (Utf8.repair v.version))]) := by
    refine Json.document_render ?_
    exact .cons ⟨rfl, Json.value_string _ _⟩ (.cons ⟨rfl, Json.value_string _ _⟩ .nil)
  have hcontract : Fold.same (utf8 "contract") (Utf8.repair (utf8 "contract")) = true := by decide
  have hversion : Fold.same (utf8 "version") (Utf8.repair (utf8 "version")) = true := by decide
  have hother : Fold.same (utf8 "contract") (Utf8.repair (utf8 "version")) = false := by decide
  rw [decode, Json.readDocument, hdoc]
  simp [Json.fill, member, hcontract, hversion, hother, Json.asText?, Except.map, bind, Except.bind, pure, Except.pure]

end Version

end CounterLedger
