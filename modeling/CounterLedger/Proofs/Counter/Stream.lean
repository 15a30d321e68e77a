/-
The message that creates the counter, which is read from the front of a stream. What may follow the
first value is decided by the reader's question whether more data follows, which is answered with no
at a closing mark. So the decoder accepts the documents that create a counter, and beyond them each
such document with a closing mark and anything at all behind it.
-/
import CounterLedger.Proofs.Counter.Decoding

namespace CounterLedger

namespace Counter

/-! ## The message that creates the counter -/

/-- The text is an object with at least one member. Each member is named counter, up to letter case,
and has null or a number in digits only as its value, and the last value is the number. -/
def Creates (data : Bytes) (n : UInt64) : Prop :=
  ∃ ms rs, Json.Grammar.Document data (.object ms) ∧ (∀ m ∈ ms, Fold.Matches "counter" m.1) ∧
    List.Forall₂ Word (ms.map Prod.snd) rs ∧ rs.getLast? = some (some n)

theorem fill_counter_eq_some_iff (v : Json) (n : UInt64) :
    Json.fill (wordField (utf8 "counter")) none v = .ok (some n) ↔
      ∃ ms rs, v = .object ms ∧ (∀ m ∈ ms, Fold.Matches "counter" m.1) ∧
        List.Forall₂ Word (ms.map Prod.snd) rs ∧ rs.getLast? = some (some n) := by
  have hcounter : ∀ c ∈ "counter".toList, c.isLower = true := by simp
  have hlast (rs : List (Option UInt64)) : some n = rs.getLast?.getD none ↔ rs.getLast? = some (some n) := by
    cases rs.getLast? with
    | none => simp
    | some r => simp [eq_comm]
  cases v with
  | object ms =>
    rw [Json.fill, foldlM_wordField_eq_ok_iff hcounter]
    constructor
    · rintro ⟨hnames, rs, hrs, hn⟩
      exact ⟨ms, rs, rfl, hnames, hrs, (hlast rs).1 hn⟩
    · rintro ⟨ms', rs, hms, hnames, hrs, hn⟩
      cases hms
      exact ⟨hnames, rs, hrs, (hlast rs).2 hn⟩
  | _ =>
    constructor
    · intro h
      cases h
    · rintro ⟨ms, rs, hms, -⟩
      cases hms

theorem InstantiateMsg.decode_eq_ok_iff_readStream (data : Bytes) (n : UInt64) :
    decode data = .ok ⟨n⟩ ↔ Json.readStream (Json.fill (wordField (utf8 "counter")) none) data = .ok (some n) := by
  unfold decode
  split
  · rename_i e he
    rw [he]
    exact ⟨fun h => (by cases h), fun h => (by cases h)⟩
  · rename_i he
    rw [he]
    exact ⟨fun h => (by cases h), fun h => (by cases h)⟩
  · rename_i n' he
    rw [he]
    simp

theorem InstantiateMsg.decode_eq_ok_iff (data : Bytes) (n : UInt64) :
    decode data = .ok ⟨n⟩ ↔ ∃ doc tail, data = doc ++ tail ∧ Creates doc n ∧ Json.Closed tail := by
  rw [decode_eq_ok_iff_readStream, Json.readStream_eq_ok_iff]
  constructor
  · rintro ⟨-, doc, tail, v, hdata, hdoc, htail, hread⟩
    obtain ⟨ms, rs, rfl, hfields⟩ := (fill_counter_eq_some_iff v n).1 hread
    exact ⟨doc, tail, hdata, ⟨ms, rs, hdoc, hfields⟩, htail⟩
  · rintro ⟨doc, tail, rfl, ⟨ms, rs, hdoc, hfields⟩, htail⟩
    have hread := (fill_counter_eq_some_iff (.object ms) n).2 ⟨ms, rs, rfl, hfields⟩
    have hbrace : 0x7b ∈ doc ++ tail := List.mem_append_left _ (Json.brace_mem_of_document hdoc)
    exact ⟨Json.trim_ne_null hbrace (by decide) (by decide), doc, tail, _, rfl, hdoc, htail, hread⟩

/-- The decoder of the message that creates the counter accepts the documents that create it, and
each of them with a closing mark and anything at all behind it; everything else it refuses as invalid
input. So it accepts exactly the documents where no such document stands before a closing mark. -/
theorem instantiate_decoder_exact (data : Bytes) :
    (∀ n, InstantiateMsg.decode data = .ok ⟨n⟩ ↔
      Creates data n ∨ ∃ doc b rest, data = doc ++ b :: rest ∧ (b = 0x5d ∨ b = 0x7d) ∧ Creates doc n) ∧
    (∀ e, InstantiateMsg.decode data = .error e → e.kind = .invalidInput) ∧
    ((∀ n, InstantiateMsg.decode data = .ok ⟨n⟩ ↔ Creates data n) ↔
      ¬ ∃ doc b rest n, data = doc ++ b :: rest ∧ (b = 0x5d ∨ b = 0x7d) ∧ Creates doc n) := by
  have haccepted (n : UInt64) : InstantiateMsg.decode data = .ok ⟨n⟩ ↔
      Creates data n ∨ ∃ doc b rest, data = doc ++ b :: rest ∧ (b = 0x5d ∨ b = 0x7d) ∧ Creates doc n := by
    rw [InstantiateMsg.decode_eq_ok_iff]
    constructor
    · rintro ⟨doc, _ | ⟨b, rest⟩, rfl, hdoc, htail⟩
      · rw [List.append_nil]
        exact .inl hdoc
      · exact .inr ⟨doc, b, rest, rfl, Json.closed_cons.1 htail, hdoc⟩
    · rintro (hdata | ⟨doc, b, rest, rfl, hb, hdoc⟩)
      · exact ⟨data, [], (List.append_nil data).symm, hdata, Json.closed_nil⟩
      · exact ⟨doc, b :: rest, rfl, hdoc, Json.closed_cons.2 hb⟩
  refine ⟨haccepted, fun e he => kind_of_strict (strict_instantiateMsg data) he, ?_, ?_⟩
  · rintro hexact ⟨doc, b, rest, n, rfl, hb, hdoc⟩
    have hdecode := (haccepted n).2 (.inr ⟨doc, b, rest, rfl, hb, hdoc⟩)
    obtain ⟨ms, rs, hwhole, -⟩ := (hexact n).1 hdecode
    obtain ⟨ms', rs', hfront, -⟩ := hdoc
    exact Json.not_document_closed hfront hb hwhole
  · intro hnone n
    rw [haccepted]
    refine ⟨fun h => h.resolve_right ?_, .inl⟩
    rintro ⟨doc, b, rest, hdata⟩
    exact hnone ⟨doc, b, rest, n, hdata⟩

/-- A closing bracket behind the message is accepted with it, although the whole is no document. -/
theorem bracket_after_message_accepted :
    InstantiateMsg.decode (utf8 "\x7b\"counter\":1\x7d]") = .ok ⟨1⟩ ∧
      ¬ ∃ n, Creates (utf8 "\x7b\"counter\":1\x7d]") n := by
  refine ⟨by decide +kernel, ?_⟩
  rintro ⟨n, ms, rs, hdoc, -⟩
  have hnone : Json.document (utf8 "\x7b\"counter\":1\x7d]") = none := by decide +kernel
  rw [← Json.Grammar.document_iff, hnone] at hdoc
  cases hdoc

end Counter

end CounterLedger
