/-
What the decoders of the counter accept. A transition or a request is a document that is an object,
all of whose members have the name of the variant, and of which the last member counts; its body is
an object of fields. Everything else is refused as invalid input, so that no message reaches a
transition that is not meant for it.
-/
import CounterLedger.Counter.Handler
import CounterLedger.Proofs.Json.Stream
import CounterLedger.Proofs.Store.Origin
import CounterLedger.Proofs.Text.Fold
import CounterLedger.Proofs.Text.Numeral

namespace CounterLedger

/-- The error without the contexts that keep its kind. -/
def Error.bare : Error → Error
  | .within _ cause => cause.bare
  | .fault f => .fault f
  | .report c cause => .report c cause

theorem Error.kind_bare (e : Error) : e.bare.kind = e.kind := by
  induction e with
  | fault f => rfl
  | within c cause ih => exact ih
  | report c cause => rfl

/-! ## Tables with a single key -/

namespace Table

variable {α : Type}

theorem insertEntry_ne_nil (k : Bytes) (v : α) (l : List (Bytes × α)) : insertEntry k v l ≠ [] := by
  cases l with
  | nil => simp [insertEntry]
  | cons e rest => rw [insertEntry]; split <;> simp

theorem insertEntry_eq_singleton_iff {k k' : Bytes} {v v' : α} (l : List (Bytes × α)) :
    insertEntry k v l = [(k', v')] ↔ (k, v) = (k', v') ∧ (l = [] ∨ ∃ w, l = [(k', w)]) := by
  cases l with
  | nil => simp [insertEntry]
  | cons e rest =>
    obtain ⟨ek, ev⟩ := e
    rw [insertEntry]
    split
    · rename_i hlt
      constructor
      · intro h
        cases h
      · rintro ⟨h, h' | ⟨w, h'⟩⟩
        · cases h'
        · cases h
          cases h'
          exact absurd (Bytes.order_eq_lt.1 hlt) (List.lt_irrefl _)
    · rename_i heq
      rw [Bytes.order_eq_eq] at heq
      subst heq
      constructor
      · intro h
        cases h
        exact ⟨rfl, .inr ⟨ev, rfl⟩⟩
      · rintro ⟨h, h' | ⟨w, h'⟩⟩
        · cases h'
        · cases h
          cases h'
          rfl
    · rename_i hgt
      constructor
      · intro h
        exact absurd (List.cons.inj h).2 (insertEntry_ne_nil k v rest)
      · rintro ⟨h, h' | ⟨w, h'⟩⟩
        · cases h'
        · cases h
          cases h'
          exact absurd (Bytes.order_eq_gt.1 hgt) (List.lt_irrefl _)

theorem ofList_append_singleton (l : List (Bytes × α)) (e : Bytes × α) :
    ofList (l ++ [e]) = (ofList l).insert e.1 e.2 := by
  rw [ofList, List.foldl_append]
  rfl

/-- A table has a single entry when all entries put into it have the same key; the last one stays. -/
theorem ofList_eq_singleton_iff (l : List (Bytes × α)) (k : Bytes) (v : α) :
    (ofList l).entries = [(k, v)] ↔ (∀ e ∈ l, e.1 = k) ∧ l.getLast? = some (k, v) := by
  induction l using List.reverseRecOn generalizing v with
  | nil => simp [ofList, empty]
  | append_singleton l e ih =>
    have hentries : (ofList (l ++ [e])).entries = insertEntry e.1 e.2 (ofList l).entries :=
      congrArg entries (ofList_append_singleton l e)
    have hnil : (ofList l).entries = [] ↔ l = [] := by
      constructor
      · intro h
        induction l using List.reverseRecOn with
        | nil => rfl
        | append_singleton l e _ =>
          rw [ofList_append_singleton] at h
          exact absurd h (insertEntry_ne_nil _ _ _)
      · rintro rfl
        rfl
    rw [hentries, insertEntry_eq_singleton_iff, hnil, List.getLast?_concat, List.forall_mem_append]
    constructor
    · rintro ⟨he, hl | ⟨w, hl⟩⟩
      · cases he
        exact ⟨⟨by simp [hl], by simp⟩, rfl⟩
      · cases he
        exact ⟨⟨((ih w).1 hl).1, by simp⟩, rfl⟩
    · rintro ⟨⟨hkeys, -⟩, he⟩
      cases he
      refine ⟨rfl, ?_⟩
      cases hlast : l.getLast? with
      | none => exact .inl (List.getLast?_eq_none_iff.1 hlast)
      | some e =>
        obtain ⟨k', w⟩ := e
        obtain rfl : k' = k := hkeys _ (List.mem_of_getLast? hlast)
        exact .inr ⟨w, (ih w).2 ⟨hkeys, hlast⟩⟩

end Table

namespace Counter

/-! ## Refused messages -/

/-- A result that is missing only for invalid input. -/
def Strict {α : Type} (r : Except Error α) : Prop :=
  ∀ e, r = .error e → e.bare = .fault (.kind .invalidInput)

theorem strict_ok {α : Type} (a : α) : Strict (.ok a : Except Error α) := by
  intro e h
  cases h

theorem strict_invalid {α : Type} (c : Context) : Strict (invalid c : Except Error α) := by
  intro e h
  cases h
  rfl

theorem Strict.map {α β : Type} {r : Except Error α} (h : Strict r) (f : α → β) : Strict (r.map f) := by
  cases r with
  | ok a => exact strict_ok (f a)
  | error e =>
    intro e' he
    cases he
    exact h e rfl

theorem strict_instantiateMsg (data : Bytes) : Strict (InstantiateMsg.decode data) := by
  unfold InstantiateMsg.decode
  split
  · exact strict_invalid _
  · exact strict_invalid _
  · exact strict_ok _

theorem strict_decodeVariant (data : Bytes) : Strict (decodeVariant data) := by
  unfold decodeVariant
  split
  case h_3 =>
    split
    · exact strict_ok _
    · exact strict_invalid _
  all_goals exact strict_invalid _

theorem strict_decodeBody {α : Type} (name : Bytes) (read : Json → Except Json.ReadError α) (body : Bytes) :
    Strict (decodeBody name read body) := by
  unfold decodeBody
  split
  · exact strict_ok _
  · exact strict_invalid _

theorem strict_executeMsg (data : Bytes) : Strict (ExecuteMsg.decode data) := by
  have hv := strict_decodeVariant data
  unfold ExecuteMsg.decode
  split
  · rename_i e he
    intro e' h
    cases h
    exact hv e he
  · split_ifs
    · exact (strict_decodeBody _ _ _).map _
    · exact (strict_decodeBody _ _ _).map _
    · exact strict_invalid _

theorem strict_queryMsg (data : Bytes) : Strict (QueryMsg.decode data) := by
  have hv := strict_decodeVariant data
  unfold QueryMsg.decode
  split
  · rename_i e he
    intro e' h
    cases h
    exact hv e he
  · split_ifs
    · exact (strict_decodeBody _ _ _).map _
    · exact strict_invalid _


/-! ## Variants -/

/-- All members have the name, and the last of them has the body. -/
def Tagged {α : Type} (name : Bytes) (ms : List (Bytes × α)) (body : α) : Prop :=
  (∀ m ∈ ms, m.1 = name) ∧ ms.getLast? = some (name, body)

theorem names_related {α β : Type} {R : α → β → Prop} {ms : List (Bytes × α)} {ts : List (Bytes × β)}
    (h : List.Forall₂ (fun m t => m.1 = t.1 ∧ R m.2 t.2) ms ts) : ts.map Prod.fst = ms.map Prod.fst := by
  induction h with
  | nil => rfl
  | cons hm _ ih => rw [List.map_cons, List.map_cons, hm.1, ih]

/-- Members with the same names, one by one, have the same variant, with bodies that belong together. -/
theorem tagged_related {α β : Type} {R : α → β → Prop} {ms : List (Bytes × α)} {ts : List (Bytes × β)}
    (h : List.Forall₂ (fun m t => m.1 = t.1 ∧ R m.2 t.2) ms ts) {name : Bytes} {body : α}
    (hms : Tagged name ms body) : ∃ t, Tagged name ts t ∧ R body t := by
  obtain ⟨hnames, hlast⟩ := hms
  have hnames' : ∀ t ∈ ts, t.1 = name := by
    intro t ht
    have hmem : t.1 ∈ ms.map Prod.fst := names_related h ▸ List.mem_map_of_mem ht
    obtain ⟨m, hm, hname⟩ := List.mem_map.1 hmem
    rw [← hname]
    exact hnames m hm
  -- the last members are the first ones from the back
  have hreverse := List.forall₂_reverse_iff.2 h
  rw [List.getLast?_eq_head?_reverse] at hlast
  obtain ⟨ms', hms⟩ := List.head?_eq_some_iff.1 hlast
  rw [hms] at hreverse
  obtain ⟨⟨name', t⟩, ts', ⟨hname, hbody⟩, -, hts⟩ := List.forall₂_cons_left_iff.1 hreverse
  cases hname
  refine ⟨t, ⟨hnames', ?_⟩, hbody⟩
  rw [List.getLast?_eq_head?_reverse, hts, List.head?_cons]

/-- The variant of a message is that of its document, and its body is a text of the body there. -/
theorem decodeVariant_eq_ok_iff (data name t : Bytes) :
    decodeVariant data = .ok (name, t) ↔
      ∃ ms body, Json.Grammar.Document data (.object ms) ∧ Tagged name (Json.writtenMembers data) body ∧
        body.text = t := by
  constructor
  · intro h
    unfold decodeVariant at h
    split at h
    case h_3 ms hdoc =>
      split at h
      · rename_i name' body hentries
        cases h
        exact ⟨ms, body, (Json.Grammar.document_iff _ _).1 hdoc,
          (Table.ofList_eq_singleton_iff _ name body).1 hentries, rfl⟩
      · cases h
    all_goals cases h
  · rintro ⟨ms, body, hdoc, htagged, rfl⟩
    have hentries := (Table.ofList_eq_singleton_iff _ name body).2 htagged
    rw [decodeVariant, (Json.Grammar.document_iff _ _).2 hdoc]
    simp only [hentries]

/-- A body is an object; a null in its place is refused. -/
theorem decodeBody_fill_eq_ok_iff {ρ : Type} (name : Bytes) (member : ρ → Bytes → Json → Except Json.ReadError ρ)
    (empty r : ρ) {t : Bytes} {body : Json} (h : Json.Grammar.Value (Json.maxDepth - 1) t body) :
    decodeBody name (Json.fill member empty) t = .ok r ↔
      ∃ fs, body = .object fs ∧ fs.foldlM (fun r m => member r m.1 m.2) empty = .ok r := by
  obtain ⟨hnull, hother⟩ := Json.readStream_value (Json.fill member empty) (by decide) h
  cases body with
  | null =>
    rw [decodeBody, hnull rfl]
    exact ⟨fun h => (by cases h), fun ⟨fs, hfs, _⟩ => (by cases hfs)⟩
  | object fs =>
    rw [decodeBody, hother (by simp), Json.fill]
    simp only [Json.object.injEq, exists_eq_left']
    cases fs.foldlM (fun r m => member r m.1 m.2) empty with
    | ok r' => simp
    | error e => exact ⟨fun h => (by cases h), fun h => (by cases h)⟩
  | _ =>
    rw [decodeBody, hother (by simp)]
    exact ⟨fun h => (by cases h), fun ⟨fs, hfs, _⟩ => (by cases hfs)⟩

/-- A message of a variant is accepted when it is a document of the variant, and the body there is an
object of fields that are accepted one by one: the text that is kept of the body and read once more
says the same as the document. -/
theorem decodeBody_decodeVariant_iff {ρ : Type} (data name : Bytes)
    (member : ρ → Bytes → Json → Except Json.ReadError ρ) (empty r : ρ) :
    (∃ t, decodeVariant data = .ok (name, t) ∧ decodeBody name (Json.fill member empty) t = .ok r) ↔
      ∃ ms fs, Json.Grammar.Document data (.object ms) ∧ Tagged name ms (.object fs) ∧
        fs.foldlM (fun r m => member r m.1 m.2) empty = .ok r := by
  constructor
  · rintro ⟨t, hvariant, hbody⟩
    obtain ⟨ms, span, hdoc, htagged, rfl⟩ := (decodeVariant_eq_ok_iff data name t).1 hvariant
    have hwritten := Json.writtenMembers_document ((Json.Grammar.document_iff _ _).2 hdoc)
    obtain ⟨body, htagged', hvalue⟩ := tagged_related
      (R := fun (t : Json.Span) v => Json.Grammar.Value (Json.maxDepth - 1) t.text v)
      (hwritten.flip.imp fun _ _ hm => ⟨hm.1.symm, hm.2⟩) htagged
    obtain ⟨fs, rfl, hfs⟩ := (decodeBody_fill_eq_ok_iff name member empty r hvalue).1 hbody
    exact ⟨ms, fs, hdoc, htagged', hfs⟩
  · rintro ⟨ms, fs, hdoc, htagged, hfs⟩
    have hwritten := Json.writtenMembers_document ((Json.Grammar.document_iff _ _).2 hdoc)
    obtain ⟨span, htagged', hvalue⟩ := tagged_related
      (R := fun v (t : Json.Span) => Json.Grammar.Value (Json.maxDepth - 1) t.text v) hwritten htagged
    exact ⟨span.text, (decodeVariant_eq_ok_iff data name _).2 ⟨ms, span, hdoc, htagged', rfl⟩,
      (decodeBody_fill_eq_ok_iff name member empty r hvalue).2 ⟨fs, rfl, hfs⟩⟩

/-! ## Fields -/

theorem foldlM_noField_eq_ok_iff (fs : List (Bytes × Json)) :
    fs.foldlM (fun r m => noField r m.1 m.2) () = .ok () ↔ fs = [] := by
  cases fs with
  | nil => exact ⟨fun _ => rfl, fun _ => rfl⟩
  | cons f fs =>
    -- the first field is refused already
    exact ⟨fun h => (by cases h), fun h => (by cases h)⟩

/-- What a word may be written as, when it may also be missing: null, or digits only. -/
inductive Word : Json → Option UInt64 → Prop where
  | null : Word .null none
  | digits {literal : Bytes} {n : UInt64} : Json.Grammar.Digits literal → Numeral.ofDigits literal = n.toNat →
      Word (.number literal) (some n)

theorem asWord?_eq_ok_iff (v : Json) (r : Option UInt64) : v.asWord? = .ok r ↔ Word v r := by
  constructor
  · intro h
    unfold Json.asWord? at h
    split at h
    · cases h
      exact .null
    · split at h
      · rename_i n hn
        cases h
        obtain ⟨hne, hdigits, hvalue⟩ := (Numeral.word?_eq_some_iff _ n).1 hn
        exact .digits ⟨hne, hdigits⟩ hvalue
      · cases h
    all_goals cases h
  · rintro (_ | ⟨⟨hne, hdigits⟩, hvalue⟩)
    · rfl
    · rw [Json.asWord?, (Numeral.word?_eq_some_iff _ _).2 ⟨hne, hdigits, hvalue⟩]

theorem wordField_eq_ok_iff {field : String} (hfield : ∀ c ∈ field.toList, c.isLower = true) (r r' : Option UInt64)
    (name : Bytes) (v : Json) :
    wordField (utf8 field) r name v = .ok r' ↔ Fold.Matches field name ∧ Word v r' := by
  rw [← Fold.same_iff hfield, ← asWord?_eq_ok_iff, wordField]
  split_ifs with h
  · simp [h]
  · exact ⟨fun he => (by cases he), fun he => absurd he.1 h⟩

/-- Every field has to be the word, and the last one counts. -/
theorem foldlM_wordField_eq_ok_iff {field : String} (hfield : ∀ c ∈ field.toList, c.isLower = true)
    (fs : List (Bytes × Json)) (start r : Option UInt64) :
    fs.foldlM (fun r m => wordField (utf8 field) r m.1 m.2) start = .ok r ↔
      (∀ f ∈ fs, Fold.Matches field f.1) ∧
        ∃ rs, List.Forall₂ Word (fs.map Prod.snd) rs ∧ r = rs.getLast?.getD start := by
  induction fs generalizing start with
  | nil =>
    rw [List.foldlM_nil]
    constructor
    · intro h
      cases h
      exact ⟨by simp, [], .nil, rfl⟩
    · rintro ⟨-, rs, hrs, rfl⟩
      cases hrs
      rfl
  | cons f fs ih =>
    rw [List.foldlM_cons]
    constructor
    · intro h
      cases hf : wordField (utf8 field) start f.1 f.2 with
      | error e =>
        rw [hf] at h
        cases h
      | ok r' =>
        rw [hf] at h
        obtain ⟨hname, hword⟩ := (wordField_eq_ok_iff hfield _ _ _ _).1 hf
        obtain ⟨hnames, rs, hrs, hr⟩ := (ih r').1 h
        refine ⟨List.forall_mem_cons.2 ⟨hname, hnames⟩, r' :: rs, .cons hword hrs, ?_⟩
        rw [List.getLast?_cons, Option.getD_some]
        exact hr
    · rintro ⟨hnames, rs, hrs, hr⟩
      obtain ⟨hname, hnames⟩ := List.forall_mem_cons.1 hnames
      obtain _ | ⟨hword, hrest⟩ := hrs
      rename_i r' rs
      rw [List.getLast?_cons, Option.getD_some] at hr
      rw [(wordField_eq_ok_iff hfield _ _ _ _).2 ⟨hname, hword⟩]
      exact (ih r').2 ⟨hnames, rs, hrest, hr⟩

/-! ## Messages -/

theorem map_eq_ok_iff {α β : Type} (r : Except Error α) (f : α → β) (b : β) :
    r.map f = .ok b ↔ ∃ a, r = .ok a ∧ f a = b := by
  cases r with
  | ok a => simp [Except.map]
  | error e => simp [Except.map]

/-- A message without fields is accepted when the body of its variant is an empty object. -/
theorem decodeBody_noField_iff (data name : Bytes) :
    (∃ t, decodeVariant data = .ok (name, t) ∧ decodeBody name (Json.fill noField ()) t = .ok ()) ↔
      ∃ ms, Json.Grammar.Document data (.object ms) ∧ Tagged name ms (.object []) := by
  rw [decodeBody_decodeVariant_iff]
  constructor
  · rintro ⟨ms, fs, hdoc, htagged, hfs⟩
    rw [(foldlM_noField_eq_ok_iff fs).1 hfs] at htagged
    exact ⟨ms, hdoc, htagged⟩
  · rintro ⟨ms, hdoc, htagged⟩
    exact ⟨ms, [], hdoc, htagged, rfl⟩

/-- A transition is accepted when the body under its name is, which decides between the two. -/
theorem ExecuteMsg.decode_eq_ok_iff (data : Bytes) (m : ExecuteMsg) :
    decode data = .ok m ↔
      ((∃ t, decodeVariant data = .ok (utf8 "increment", t) ∧
          decodeBody (utf8 "increment") (Json.fill noField ()) t = .ok ()) ∧ m = .increment) ∨
        ∃ r, (∃ t, decodeVariant data = .ok (utf8 "reset", t) ∧
          decodeBody (utf8 "reset") (Json.fill (wordField (utf8 "value")) none) t = .ok r) ∧ m = .reset r := by
  have hother : utf8 "reset" ≠ utf8 "increment" := by decide
  unfold decode
  cases hv : decodeVariant data with
  | error e =>
    constructor
    · intro h
      cases h
    · rintro (⟨⟨_, h, _⟩, -⟩ | ⟨_, ⟨_, h, _⟩, -⟩) <;> cases h
  | ok variant =>
    obtain ⟨name, t⟩ := variant
    constructor
    · intro h
      simp only at h
      split_ifs at h with hinc hreset
      · obtain ⟨⟨⟩, hbody, rfl⟩ := (map_eq_ok_iff _ _ _).1 h
        subst hinc
        exact .inl ⟨⟨t, rfl, hbody⟩, rfl⟩
      · obtain ⟨r, hbody, rfl⟩ := (map_eq_ok_iff _ _ _).1 h
        subst hreset
        exact .inr ⟨r, ⟨t, rfl, hbody⟩, rfl⟩
      · cases h
    · rintro (⟨⟨_, h, hbody⟩, rfl⟩ | ⟨r, ⟨_, h, hbody⟩, rfl⟩)
      · cases h
        simp only [if_true, hbody]
        rfl
      · cases h
        simp only [if_neg hother, if_true, hbody]
        rfl

theorem ExecuteMsg.decode_eq_increment_iff (data : Bytes) :
    decode data = .ok .increment ↔
      ∃ ms, Json.Grammar.Document data (.object ms) ∧ Tagged (utf8 "increment") ms (.object []) := by
  rw [decode_eq_ok_iff, decodeBody_noField_iff]
  simp

theorem ExecuteMsg.decode_eq_reset_iff (data : Bytes) (r : Option UInt64) :
    decode data = .ok (.reset r) ↔
      ∃ ms fs rs, Json.Grammar.Document data (.object ms) ∧ Tagged (utf8 "reset") ms (.object fs) ∧
        (∀ f ∈ fs, Fold.Matches "value" f.1) ∧ List.Forall₂ Word (fs.map Prod.snd) rs ∧ r = rs.getLast?.getD none := by
  have hvalue : ∀ c ∈ "value".toList, c.isLower = true := by simp
  rw [decode_eq_ok_iff]
  simp only [decodeBody_decodeVariant_iff, foldlM_wordField_eq_ok_iff hvalue]
  constructor
  · rintro (⟨-, hm⟩ | ⟨r', ⟨ms, fs, hdoc, htagged, hnames, rs, hrs, hr⟩, hm⟩)
    · cases hm
    · cases hm
      exact ⟨ms, fs, rs, hdoc, htagged, hnames, hrs, hr⟩
  · rintro ⟨ms, fs, rs, hdoc, htagged, hnames, hrs, hr⟩
    exact .inr ⟨r, ⟨ms, fs, hdoc, htagged, hnames, rs, hrs, hr⟩, rfl⟩

theorem QueryMsg.decode_eq_ok_iff (data : Bytes) :
    decode data = .ok .getCount ↔
      ∃ ms, Json.Grammar.Document data (.object ms) ∧ Tagged (utf8 "get_count") ms (.object []) := by
  rw [← decodeBody_noField_iff]
  unfold decode
  cases hv : decodeVariant data with
  | error e => exact ⟨fun h => (by cases h), fun ⟨_, h, _⟩ => (by cases h)⟩
  | ok variant =>
    obtain ⟨name, t⟩ := variant
    constructor
    · intro h
      simp only at h
      split_ifs at h with hname
      · obtain ⟨⟨⟩, hbody, -⟩ := (map_eq_ok_iff _ _ _).1 h
        subst hname
        exact ⟨t, rfl, hbody⟩
      · cases h
    · rintro ⟨_, h, hbody⟩
      cases h
      simp only [if_true, hbody]
      rfl

theorem kind_of_strict {α : Type} {r : Except Error α} (h : Strict r) {e : Error} (he : r = .error e) :
    e.kind = .invalidInput := by
  rw [← e.kind_bare, h e he]
  rfl

theorem lacks_of_strict {α : Type} {r : Except Error α} (h : Strict r) : Lacks .shouldNotEnter r := by
  intro e he hk
  rw [kind_of_strict h he] at hk
  cases hk

/-! ## Transitions -/

theorem load_avoids : State.load.toProgram.Avoids .shouldNotEnter := by
  unfold State.load
  rw [Reading.toProgram_bind, Reading.toProgram_within]
  refine Program.avoids_bind (Program.avoids_within _ (Reading.avoids_read _)) fun data => ?_
  cases data with
  | none => exact Program.avoids_fail (by decide)
  | some data =>
    simp only
    cases State.decode data with
    | ok s => exact Program.avoids_pure s
    | error e => exact Program.avoids_fail (fun h => by cases h)

/-- A change of the record, if it is refused, is refused for a reason of its own. -/
theorem update_avoids {change : State → Except Error State} (h : ∀ s, Lacks .shouldNotEnter (change s)) :
    (State.update change).Avoids .shouldNotEnter := by
  refine Program.avoids_bind load_avoids fun s => Program.avoids_bind (Program.avoids_ofExcept (h s)) fun next => ?_
  exact Program.avoids_bind (Program.avoids_within _ (Program.avoids_write _ _)) fun _ => Program.avoids_pure next

theorem incremented_lacks (s : State) : Lacks .shouldNotEnter s.incremented := by
  intro e he
  unfold State.incremented at he
  split_ifs at he
  cases he
  decide

theorem resetBy_lacks (sender : Address) (value : UInt64) (s : State) :
    Lacks .shouldNotEnter (s.resetBy sender value) := by
  intro e he
  unfold State.resetBy at he
  split_ifs at he
  cases he
  exact fun h => by cases h

/-- The handler takes no message that it is given directly for another. -/
theorem execute_avoids (sender : Address) (m : ExecuteMsg) : (execute sender (.direct m)).Avoids .shouldNotEnter := by
  cases m with
  | increment =>
    refine Program.avoids_within _ (Program.avoids_bind (update_avoids incremented_lacks) fun s => ?_)
    exact Program.avoids_bind (Program.avoids_note _) fun _ => Program.avoids_pure _
  | reset value =>
    cases value with
    | none => exact Program.avoids_within _ (Program.avoids_fail (fun h => by cases h))
    | some value =>
      refine Program.avoids_within _ (Program.avoids_bind (update_avoids (resetBy_lacks sender value)) fun s => ?_)
      exact Program.avoids_bind (Program.avoids_note _) fun _ => Program.avoids_pure _

theorem query_avoids (m : QueryMsg) : (query (.direct m)).toProgram.Avoids .shouldNotEnter := by
  cases m with
  | getCount =>
    show ((getCount (.direct .getCount)).within _).toProgram.Avoids _
    rw [Reading.toProgram_within]
    refine Program.avoids_within _ ?_
    show (State.load >>= fun s => pure s.counter).toProgram.Avoids _
    rw [Reading.toProgram_bind]
    exact Program.avoids_bind load_avoids fun s => Program.avoids_pure s.counter

theorem contract_execute_avoids (env : Env) (sender : Address) (msg : Payload) :
    (contract.execute env sender msg).Avoids .shouldNotEnter :=
  Program.avoids_bind (Program.avoids_ofExcept (lacks_of_strict (strict_executeMsg _))) (execute_avoids sender)

theorem contract_query_avoids (env : Env) (msg : Payload) :
    (contract.query env msg).toProgram.Avoids .shouldNotEnter := by
  have hlacks := lacks_of_strict (strict_queryMsg (messageBytes msg))
  cases hm : QueryMsg.decode (messageBytes msg) with
  | error e =>
    simp only [contract, hm]
    exact Program.avoids_fail (hlacks e hm)
  | ok m =>
    simp only [contract, hm]
    rw [Reading.toProgram_bind]
    exact Program.avoids_bind (query_avoids m) fun n => Program.avoids_pure _

/-- The decoders accept exactly their grammar, and refuse everything else as invalid input. So the
contract ends in the error for a misdirected message only when it hands one on that the store itself
reported in the same run. -/
theorem decoders_exact :
    (∀ data, ExecuteMsg.decode data = .ok .increment ↔
      ∃ ms, Json.Grammar.Document data (.object ms) ∧ Tagged (utf8 "increment") ms (.object [])) ∧
    (∀ data r, ExecuteMsg.decode data = .ok (.reset r) ↔
      ∃ ms fs rs, Json.Grammar.Document data (.object ms) ∧ Tagged (utf8 "reset") ms (.object fs) ∧
        (∀ f ∈ fs, Fold.Matches "value" f.1) ∧ List.Forall₂ Word (fs.map Prod.snd) rs ∧ r = rs.getLast?.getD none) ∧
    (∀ data, QueryMsg.decode data = .ok .getCount ↔
      ∃ ms, Json.Grammar.Document data (.object ms) ∧ Tagged (utf8 "get_count") ms (.object [])) ∧
    (∀ data e, ExecuteMsg.decode data = .error e → e.kind = .invalidInput) ∧
    (∀ data e, QueryMsg.decode data = .error e → e.kind = .invalidInput) ∧
    ∀ (σ : Type) (s : Store σ) (st : σ) (env : Env) (sender : Address) (msg : Payload) (e : Error),
      e.kind = .shouldNotEnter →
      (((contract.execute env sender msg).run s st).outcome = .error e →
        ∃ e' ∈ (contract.execute env sender msg).reported s st, e'.kind = .shouldNotEnter) ∧
      (((contract.query env msg).run s.toSource st).1 = .error e →
        ∃ e' ∈ (contract.query env msg).toProgram.reported s st, e'.kind = .shouldNotEnter) := by
  refine ⟨ExecuteMsg.decode_eq_increment_iff, ExecuteMsg.decode_eq_reset_iff, QueryMsg.decode_eq_ok_iff,
    fun data e he => kind_of_strict (strict_executeMsg _) he, fun data e he => kind_of_strict (strict_queryMsg _) he, ?_⟩
  intro σ s st env sender msg e hk
  refine ⟨fun he => (contract_execute_avoids env sender msg).reported s st he hk, fun he => ?_⟩
  refine (contract_query_avoids env msg).reported s st ?_ hk
  rw [Reading.run_toProgram]
  exact he

end Counter

end CounterLedger
