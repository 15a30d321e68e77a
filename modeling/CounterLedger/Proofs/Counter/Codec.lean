/-
The codec of the messages. Every message is read back from its text, and so the entry points of the
contract, which take texts, run like the transitions themselves, which take messages: on every store,
whatever it holds and whichever of its operations fail. A query answers with the text of its result.
-/
import CounterLedger.Proofs.Counter.Decoding
import CounterLedger.Proofs.Json.RoundTrip
import CounterLedger.Proofs.Store.Program

namespace CounterLedger

namespace Counter

/-! ## Messages -/

/-- A word that may be missing is printed as what it is read from. -/
theorem word_optionalWord (value : Option UInt64) : Word (optionalWord value) value := by
  rw [← asWord?_eq_ok_iff]
  cases value with
  | none => rfl
  | some n => simp only [optionalWord, Json.ofWord, Json.asWord?, Numeral.word?_decimal]

theorem value_optionalWord (depth : Nat) (value : Option UInt64) :
    Json.Grammar.Value depth (Json.render (optionalWord value)) (optionalWord value) := by
  cases value with
  | none => exact Json.value_null _
  | some n => exact Json.value_number _ _

/-- A printed variant is a document of this variant. -/
theorem document_variant {name : Bytes} {body v : Json} (hname : Utf8.repair name = name)
    (hbody : Json.Grammar.Value (Json.maxDepth - 1) (Json.render body) v) :
    Json.Grammar.Document (Json.render (.object [(name, body)])) (.object [(name, v)]) :=
  (Json.Grammar.document_iff _ _).1 (Json.document_render (.cons ⟨hname.symm, hbody⟩ .nil))

theorem tagged_single {α : Type} (name : Bytes) (body : α) : Tagged name [(name, body)] body := by
  simp [Tagged]

theorem InstantiateMsg.decode_encode (m : InstantiateMsg) : decode (encode m) = .ok m := by
  have hvalue : Json.Grammar.Value (9999 + 1) m.encode
      (.object [(Utf8.repair (utf8 "counter"), Json.ofWord m.counter)]) :=
    Json.value_object (.cons ⟨rfl, Json.value_number _ _⟩ .nil)
  have hname : Fold.same (utf8 "counter") (Utf8.repair (utf8 "counter")) = true := by decide
  rw [decode, (Json.readStream_value _ (by decide) hvalue).2 (by simp)]
  simp only [Json.fill, List.foldlM_cons, List.foldlM_nil, wordField, hname, if_true, Json.ofWord, Json.asWord?,
    Numeral.word?_decimal]
  rfl

theorem ExecuteMsg.decode_encode (m : ExecuteMsg) : decode (encode m) = .ok m := by
  cases m with
  | increment =>
    have hbody : Json.Grammar.Value (9998 + 1) (Json.render (.object [])) (.object []) := Json.value_object .nil
    exact (decode_eq_increment_iff _).2 ⟨_, document_variant (by decide) hbody, tagged_single _ _⟩
  | reset value =>
    have hname : utf8 "value" = Utf8.repair (utf8 "value") := by decide
    have hbody : Json.Grammar.Value (9998 + 1) (Json.render (.object [(utf8 "value", optionalWord value)]))
        (.object [(utf8 "value", optionalWord value)]) :=
      Json.value_object (.cons ⟨hname, value_optionalWord _ value⟩ .nil)
    have hlower : ∀ c ∈ "value".toList, c.isLower = true := by simp
    have hfield : Fold.Matches "value" (utf8 "value") := (Fold.same_iff hlower _).1 (by decide)
    exact (decode_eq_reset_iff _ value).2 ⟨_, _, [value], document_variant (by decide) hbody, tagged_single _ _,
      by simpa using hfield, .cons (word_optionalWord value) .nil, rfl⟩

theorem QueryMsg.decode_encode (m : QueryMsg) : decode (encode m) = .ok m := by
  cases m with
  | getCount =>
    have hbody : Json.Grammar.Value (9998 + 1) (Json.render (.object [])) (.object []) := Json.value_object .nil
    exact (decode_eq_ok_iff _).2 ⟨_, document_variant (by decide) hbody, tagged_single _ _⟩

/-! ## Entry points -/

/-- The text is that of an object whose only member, the count, is the number. -/
def Counts (data : Bytes) (n : UInt64) : Prop :=
  ∃ v, Json.document data = some (.object [(utf8 "count", v)]) ∧ v.asWord? = .ok (some n)

theorem counts_encodeCount (n : UInt64) : Counts (encodeCount n) n := by
  have hname : utf8 "count" = Utf8.repair (utf8 "count") := by decide
  refine ⟨Json.ofWord n, Json.document_render (.cons ⟨hname, Json.value_number _ _⟩ .nil), ?_⟩
  simp only [Json.ofWord, Json.asWord?, Numeral.word?_decimal]

theorem contract_instantiate_encode (env : Env) (sender : Address) (m : InstantiateMsg) :
    contract.instantiate env sender (some m.encode) = instantiate sender m := by
  show (Program.ofExcept (InstantiateMsg.decode m.encode) >>= fun m => instantiate sender m) = _
  rw [InstantiateMsg.decode_encode]
  rfl

theorem contract_execute_encode (env : Env) (sender : Address) (m : ExecuteMsg) :
    contract.execute env sender (some m.encode) = execute sender (.direct m) := by
  show (Program.ofExcept (ExecuteMsg.decode m.encode) >>= fun m => execute sender (.direct m)) = _
  rw [ExecuteMsg.decode_encode]
  rfl

theorem contract_query_encode (env : Env) (m : QueryMsg) :
    contract.query env (some m.encode) = (do
      let n ← query (.direct m)
      pure (some (encodeCount n))) := by
  have hdecode : QueryMsg.decode (messageBytes (some m.encode)) = .ok m := QueryMsg.decode_encode m
  simp only [contract, hdecode]

theorem query_getCount_answers {σ : Type} (s : Source σ) (st : σ) (env : Env) :
    (contract.query env (some QueryMsg.getCount.encode)).run s st =
      (((query (.direct .getCount)).run s st).1.map fun n => some (encodeCount n),
        ((query (.direct .getCount)).run s st).2) := by
  rw [contract_query_encode, Reading.run_bind]
  rcases (query (.direct .getCount)).run s st with ⟨_ | _ | _, st'⟩ <;> rfl

/-- Every message is read back from its text, by whichever form it was encoded; and the contract,
given the text, runs like the transition given the message, on every store. A query given as a text
has a result when the query itself has one, and its result is a text that counts the same. -/
theorem codec_agrees :
    (∀ n : UInt64, InstantiateMsg.decode (InstantiateMsg.encode ⟨n⟩) = .ok ⟨n⟩) ∧
    (∀ m : ExecuteMsg, ExecuteMsg.decode m.encode = .ok m ∧
      Given.encode ExecuteMsg.encode (.direct m) = .ok m.encode ∧
      Given.encode ExecuteMsg.encode (.reference m) = .ok m.encode) ∧
    (∀ m : QueryMsg, QueryMsg.decode m.encode = .ok m ∧
      Given.encode QueryMsg.encode (.direct m) = .ok m.encode ∧
      Given.encode QueryMsg.encode (.reference m) = .ok m.encode) ∧
    ∀ (σ : Type) (s : Store σ) (st : σ) (env : Env) (sender : Address),
      (∀ m : InstantiateMsg,
        (contract.instantiate env sender (some m.encode)).run s st = (instantiate sender m).run s st) ∧
      (∀ m : ExecuteMsg,
        (contract.execute env sender (some m.encode)).run s st = (execute sender (.direct m)).run s st) ∧
      (let answered := (contract.query env (some QueryMsg.getCount.encode)).run s.toSource st
       let counted := (query (.direct .getCount)).run s.toSource st
       answered.2 = counted.2 ∧ ((∃ out, answered.1 = .ok out) ↔ ∃ n, counted.1 = .ok n) ∧
         (∀ n, counted.1 = .ok n → ∃ data, answered.1 = .ok (some data) ∧ Counts data n) ∧
         ∀ e, counted.1 = .error e ↔ answered.1 = .error e) := by
  refine ⟨fun n => InstantiateMsg.decode_encode ⟨n⟩, fun m => ⟨ExecuteMsg.decode_encode m, rfl, rfl⟩,
    fun m => ⟨QueryMsg.decode_encode m, rfl, rfl⟩, ?_⟩
  intro σ s st env sender
  refine ⟨fun m => by rw [contract_instantiate_encode], fun m => by rw [contract_execute_encode], ?_⟩
  intro answered counted
  have hanswered : answered = (counted.1.map fun n => some (encodeCount n), counted.2) :=
    query_getCount_answers s.toSource st env
  rw [hanswered]
  obtain ⟨outcome, st'⟩ := counted
  refine ⟨rfl, ?_, ?_, ?_⟩
  · cases outcome with
    | ok n => exact ⟨fun _ => ⟨n, rfl⟩, fun _ => ⟨_, rfl⟩⟩
    | error e => exact ⟨fun ⟨_, h⟩ => (by cases h), fun ⟨_, h⟩ => (by cases h)⟩
    | abort r => exact ⟨fun ⟨_, h⟩ => (by cases h), fun ⟨_, h⟩ => (by cases h)⟩
  · intro n hn
    cases hn
    exact ⟨encodeCount n, rfl, counts_encodeCount n⟩
  · intro e
    cases outcome <;> simp [Outcome.map]

end Counter

end CounterLedger
