/-
Staging in a depot. The stores of a depot refer to each other by position, and a block of a session
is an overlay that is put behind all stores that are there. A store that never fails answers by its
contents, whatever is added behind it; so the blocks of a session, which work on the innermost
overlay by its name, give the answers of the reference interpreter with its one plain map.
-/
import CounterLedger.Proofs.Store.Edits
import CounterLedger.Proofs.Store.Nested
import CounterLedger.Store.Depot

namespace CounterLedger

namespace Depot

variable {d d' : Depot} {i : Nat}

/-! ## Reading and changing one store -/

theorem get_plain {s : PlainStore} (h : d.nodes[i]? = some (.plain s)) (k : Bytes) :
    d.get i k = .ofExcept (s.get k).1 := by
  rw [Depot.get, h]

theorem get_alone {cs : Table Change} (h : d.nodes[i]? = some (.snapshot cs none)) (k : Bytes) :
    d.get i k = .ok (match cs.get? k with
      | some c => c.read
      | none => none) := by
  rw [Depot.get, h]
  cases hc : cs.get? k <;> simp only [hc]

theorem get_above {cs : Table Change} {p : Nat} (h : d.nodes[i]? = some (.snapshot cs (some p))) (hp : p < i)
    (k : Bytes) :
    d.get i k = match cs.get? k with
      | some c => .ok c.read
      | none => (d.get p k).mapError (.within .parent) := by
  rw [Depot.get, h]
  cases hc : cs.get? k <;> simp only [hc, hp, if_true]

theorem change_snapshot {cs : Table Change} {parent : Option Nat}
    (h : d.nodes[i]? = some (.snapshot cs parent)) (k : Bytes) (c : Change) :
    (store i).change k c d = (.ok (), d.put i (.snapshot (cs.insert k c) parent)) := by
  cases c with
  | value v => show d.set i k v = _; rw [Depot.set, h]
  | deleted => show d.delete i k = _; rw [Depot.delete, h]

theorem change_plain {s : PlainStore} (h : d.nodes[i]? = some (.plain s)) (k : Bytes) (c : Change) :
    (store i).change k c d =
      ((PlainStore.store.change k c s).1, d.put i (.plain (PlainStore.store.change k c s).2)) := by
  cases c with
  | value v => show d.set i k v = _; rw [Depot.set, h]; rfl
  | deleted => show d.delete i k = _; rw [Depot.delete, h]; rfl

theorem put_self (h : i < d.nodes.length) (n : Node) : (d.put i n).nodes[i]? = some n := by
  simp [put, h]

theorem put_other (d : Depot) {i j : Nat} (h : j ≠ i) (n : Node) : (d.put i n).nodes[j]? = d.nodes[j]? := by
  simp [put, List.getElem?_set_ne (Ne.symm h)]

/-! ## Stores that never fail -/

/-- The store at the position never fails: a plain store without faults, or changes on top of
nothing or of such a store. -/
inductive Sound (d : Depot) : Nat → Prop where
  | plain {i : Nat} {s : PlainStore} : d.nodes[i]? = some (.plain s) → s.faults = {} → Sound d i
  | alone {i : Nat} {cs : Table Change} : d.nodes[i]? = some (.snapshot cs none) → Sound d i
  | above {i p : Nat} {cs : Table Change} : d.nodes[i]? = some (.snapshot cs (some p)) → p < i → Sound d p →
      Sound d i

/-- The store at the position never fails and has these contents. -/
structure Holds (d : Depot) (i : Nat) (m : Memory) : Prop where
  sound : d.Sound i
  get : ∀ k, d.get i k = .ok (m k)

theorem Sound.lt (h : d.Sound i) : i < d.nodes.length := by
  cases h with
  | plain hs _ => exact (List.getElem?_eq_some_iff.1 hs).1
  | alone hs => exact (List.getElem?_eq_some_iff.1 hs).1
  | above hs _ _ => exact (List.getElem?_eq_some_iff.1 hs).1

theorem Sound.writable (h : d.Sound i) : d.isWritable i = true := by
  unfold isWritable
  cases h with
  | plain hs _ => rw [hs]
  | alone hs => rw [hs]
  | above hs _ _ => rw [hs]

/-- Reading a store takes no look at the stores behind it. -/
theorem Sound.congr (h : d.Sound i) (hn : ∀ j ≤ i, d'.nodes[j]? = d.nodes[j]?) :
    d'.Sound i ∧ ∀ k, d'.get i k = d.get i k := by
  induction h with
  | @plain i s hs hf =>
    have hs' := (hn i (Nat.le_refl i)).trans hs
    exact ⟨.plain hs' hf, fun k => by rw [get_plain hs, get_plain hs']⟩
  | @alone i cs hs =>
    have hs' := (hn i (Nat.le_refl i)).trans hs
    exact ⟨.alone hs', fun k => by rw [get_alone hs, get_alone hs']⟩
  | @above i p cs hs hp _ ih =>
    have hs' := (hn i (Nat.le_refl i)).trans hs
    obtain ⟨hsound, hget⟩ := ih fun j hj => hn j (Nat.le_trans hj (Nat.le_of_lt hp))
    exact ⟨.above hs' hp hsound, fun k => by rw [get_above hs hp, get_above hs' hp, hget]⟩

theorem Holds.congr {m : Memory} (h : d.Holds i m) (hn : ∀ j ≤ i, d'.nodes[j]? = d.nodes[j]?) : d'.Holds i m := by
  obtain ⟨hsound, hget⟩ := h.sound.congr hn
  exact ⟨hsound, fun k => (hget k).trans (h.get k)⟩

theorem Holds.unique {m n : Memory} (h : d.Holds i m) (h' : d.Holds i n) : m = n := by
  funext k
  have he := (h.get k).symm.trans (h'.get k)
  injection he

theorem holds_plain {s : PlainStore} (h : d.nodes[i]? = some (.plain s)) (hf : s.faults = {}) :
    d.Holds i s.contents :=
  ⟨.plain h hf, fun k => by rw [get_plain h, s.get_sound hf]; rfl⟩

theorem holds_alone {cs : Table Change} (h : d.nodes[i]? = some (.snapshot cs none)) :
    d.Holds i (Snapshot.contents { changes := cs, base := () }) :=
  ⟨.alone h, get_alone h⟩

theorem holds_above {cs : Table Change} {p : Nat} {m : Memory} (h : d.nodes[i]? = some (.snapshot cs (some p)))
    (hp : p < i) (hm : d.Holds p m) : d.Holds i (Overlay.contents { changes := cs, base := m }) := by
  refine ⟨.above h hp hm.sound, fun k => ?_⟩
  rw [get_above h hp, hm.get]
  unfold Overlay.contents
  cases cs.get? k <;> rfl

theorem Sound.holds (h : d.Sound i) : ∃ m, d.Holds i m := by
  induction h with
  | plain hs hf => exact ⟨_, holds_plain hs hf⟩
  | alone hs => exact ⟨_, holds_alone hs⟩
  | above hs hp _ ih =>
    obtain ⟨m, hm⟩ := ih
    exact ⟨_, holds_above hs hp hm⟩

/-! ## A store that never fails is faithful -/

/-- What a snapshot stands on, if the store is a snapshot. -/
def parent? : Option Node → Option (Option Nat)
  | some (.snapshot _ p) => some p
  | _ => none

/-- The name of the store of a level of blocks. -/
def level (n : Nat) : Bytes := List.replicate n 0x73

/-- Of the stores of the first depot only the one at the position has changed, and the names up to a
level are the same. -/
structure Changed (n i : Nat) (d d' : Depot) : Prop where
  others : ∀ j < d.nodes.length, j ≠ i → d'.nodes[j]? = d.nodes[j]?
  parent : parent? d'.nodes[i]? = parent? d.nodes[i]?
  length : d.nodes.length ≤ d'.nodes.length
  names : ∀ j ≤ n, d'.names.get? (level j) = d.names.get? (level j)

theorem Changed.refl (n i : Nat) (d : Depot) : Changed n i d d :=
  ⟨fun _ _ _ => rfl, rfl, Nat.le_refl _, fun _ _ => rfl⟩

theorem Changed.trans {n : Nat} {d'' : Depot} (h : Changed n i d d') (h' : Changed n i d' d'') :
    Changed n i d d'' :=
  ⟨fun j hj hne => (h'.others j (Nat.lt_of_lt_of_le hj h.length) hne).trans (h.others j hj hne),
    h'.parent.trans h.parent, Nat.le_trans h.length h'.length, fun j hj => (h'.names j hj).trans (h.names j hj)⟩

theorem changed_put {n : Nat} {node : Node} (h : i < d.nodes.length)
    (hp : parent? (some node) = parent? d.nodes[i]?) : Changed n i d (d.put i node) where
  others := fun _ _ hne => put_other d hne node
  parent := by rw [put_self h, hp]
  length := by simp [put]
  names := fun _ _ => rfl

/-- A change to a store that never fails is made, and shows in its contents. -/
theorem Holds.change {m : Memory} (h : d.Holds i m) (n : Nat) (k : Bytes) (c : Change) :
    ((store i).change k c d).1 = .ok () ∧ ((store i).change k c d).2.Holds i (m.put k c.read) ∧
      Changed n i d ((store i).change k c d).2 := by
  have hlt := h.sound.lt
  cases h.sound with
  | @plain _ s hs hf =>
    obtain rfl := h.unique (holds_plain hs hf)
    obtain ⟨t, ht, htf, htc⟩ := PlainStore.change_sound hf k c
    rw [change_plain hs, ht]
    exact ⟨rfl, htc ▸ holds_plain (put_self hlt _) htf, changed_put hlt (by rw [hs]; rfl)⟩
  | @alone _ cs hs =>
    obtain rfl := h.unique (holds_alone hs)
    rw [change_snapshot hs]
    exact ⟨rfl, Snapshot.contents_insert _ k c ▸ holds_alone (put_self hlt _), changed_put hlt (by rw [hs]; rfl)⟩
  | @above _ p cs hs hp hsound =>
    obtain ⟨b, hb⟩ := hsound.holds
    obtain rfl := h.unique (holds_above hs hp hb)
    rw [change_snapshot hs]
    -- the store below is in front of this one, so it is read as before
    have hb' : (d.put i (.snapshot (cs.insert k c) (some p))).Holds p b :=
      hb.congr fun j hj => put_other d (Nat.ne_of_lt (Nat.lt_of_le_of_lt hj hp)) _
    exact ⟨rfl, Overlay.contents_insert _ k c ▸ holds_above (put_self hlt _) hp hb', changed_put hlt (by rw [hs]; rfl)⟩

/-- A store that never fails is faithful to its contents, and working on it changes no other store. -/
theorem store_faithful (n i : Nat) (d₀ : Depot) :
    (store i).Faithful (fun _ => True) (fun d m => d.Holds i m ∧ Changed n i d₀ d) where
  get := by
    rintro k d m - ⟨h, hc⟩
    refine ⟨?_, h, hc⟩
    simp only [store, h.get]
    rfl
  set := by
    rintro k v d m - ⟨h, hc⟩
    obtain ⟨hr, hh, hc'⟩ := h.change n k (.value v)
    exact ⟨hr, hh, hc.trans hc'⟩
  delete := by
    rintro k d m - ⟨h, hc⟩
    obtain ⟨hr, hh, hc'⟩ := h.change n k .deleted
    exact ⟨hr, hh, hc.trans hc'⟩

/-! ## Sessions -/

/-- A session on one store, with blocks: each step works on the innermost store that is open. -/
inductive Script where
  | done
  | get (key : Bytes) (rest : Script)
  | set (key : Bytes) (value : Payload) (rest : Script)
  | delete (key : Bytes) (rest : Script)
  | stage (block : Script) (fails : Bool) (rest : Script)

/-- The steps of a script at a level of blocks. -/
def Script.steps : Script → Nat → List Step
  | .done, _ => []
  | .get k rest, n => .get (level n) k :: rest.steps n
  | .set k v rest, n => .set (level n) k v :: rest.steps n
  | .delete k rest, n => .delete (level n) k :: rest.steps n
  | .stage block fails rest, n => .stage (level n) (level (n + 1)) (block.steps (n + 1)) fails :: rest.steps n

/-- How a block ends. -/
def ending (fails : Bool) : Except Error Unit :=
  if fails then .error (.fault (.custom (utf8 "oops"))) else .ok ()

/-- The computation that a script is. -/
def Script.nested (fails : Bool) : Script → Nested
  | .done => .done (ending fails)
  | .get k rest => .get k fun _ => rest.nested fails
  | .set k v rest => .set k v fun _ => rest.nested fails
  | .delete k rest => .delete k fun _ => rest.nested fails
  | .stage block f rest => .stage (block.nested f) fun _ => rest.nested fails

/-- What is seen in the result of a step without steps inside. -/
def Reply.seen : Outcome Reply → List Nested.Seen
  | .ok (.value v) => [.read (.ok v)]
  | .ok .done => [.wrote (.ok ())]
  | _ => []

mutual

/-- What is seen in an answer: that of the steps inside comes first. -/
def Answer.seen : Answer → List Nested.Seen
  | .mk r none => Reply.seen r
  | .mk r (some inner) => Answer.seenAll inner ++ [.closed (r.map fun _ => ())]

/-- What is seen in answers, in order. -/
def Answer.seenAll : List Answer → List Nested.Seen
  | [] => []
  | a :: rest => a.seen ++ Answer.seenAll rest

end

theorem level_inj {j n : Nat} (h : level j = level n) : j = n := by
  simpa [level] using congrArg List.length h

theorem reference_result (sc : Script) (fails : Bool) (m : Memory) :
    ((sc.nested fails).reference m).result = ending fails := by
  induction sc generalizing m with
  | done => rfl
  | get k rest ih => exact ih m
  | set k v rest ih => exact ih _
  | delete k rest ih => exact ih _
  | stage block f rest _ ih => exact ih _

/-- Opening a block: its overlay stands behind all stores, and reads as the store it stands on. -/
theorem Holds.open {m : Memory} (h : d.Holds i m) (name : Bytes) :
    (d.add name (.snapshot Table.empty (some i))).Holds i m ∧
      (d.add name (.snapshot Table.empty (some i))).Holds d.nodes.length m := by
  have hi := h.sound.lt
  have hbase : (d.add name (.snapshot Table.empty (some i))).Holds i m :=
    h.congr fun j hj => by simp [add, List.getElem?_append_left (Nat.lt_of_le_of_lt hj hi)]
  refine ⟨hbase, ?_⟩
  have hnode : (d.add name (.snapshot Table.empty (some i))).nodes[d.nodes.length]? =
      some (.snapshot Table.empty (some i)) := by simp [add]
  exact holds_above hnode hi hbase

/-- What has only touched the overlay of a block has changed no store that was there before. -/
theorem Changed.before {n : Nat} {name : Bytes} {node : Node}
    (h : Changed n d.nodes.length (d.add name node) d') : ∀ j < d.nodes.length, d'.nodes[j]? = d.nodes[j]? := by
  intro j hj
  rw [h.others j (by simp [add]; omega) (Nat.ne_of_lt hj)]
  simp [add, List.getElem?_append_left hj]

theorem Changed.block {n : Nat} {node : Node}
    (h : Changed (n + 1) d.nodes.length (d.add (level (n + 1)) node) d') (hi : i < d.nodes.length) :
    Changed n i d d' := by
  refine ⟨fun j hj _ => h.before j hj, by rw [h.before i hi], ?_, fun j hj => ?_⟩
  · exact Nat.le_trans (by simp [add]) h.length
  · have hne : level (n + 1) ≠ level j := fun he => by have := level_inj he; omega
    rw [h.names j (by omega)]
    simp [add, hne]

/-- Closing a block: the store below is as before if the block failed, and has the contents of the
block otherwise. -/
theorem Holds.settle {m b : Memory} {c n : Nat} (hc : d.Holds c b) (hi : d.Holds i m)
    (hp : parent? d.nodes[c]? = some (some i)) (hlt : i < c) (fails : Bool) :
    (d.settle i c fails).1.map (fun _ => ()) = .ofExcept (ending fails) ∧
      (d.settle i c fails).2.Holds i (match ending fails with
        | .ok () => b
        | .error _ => m) ∧ Changed n i d (d.settle i c fails).2 := by
  obtain ⟨cs, hcs⟩ : ∃ cs, d.nodes[c]? = some (.snapshot cs (some i)) := by
    unfold parent? at hp
    split at hp
    · rename_i cs p hnode
      injection hp with hp
      exact ⟨cs, hp ▸ hnode⟩
    · cases hp
  cases fails with
  | true => exact ⟨rfl, hi, .refl n i d⟩
  | false =>
    -- the contents of the block are its changes on top of the store below
    obtain rfl := hc.unique (holds_above hcs hlt hi)
    obtain ⟨hr, hh, hch⟩ := Store.apply_alike (store_faithful n i d) (l := cs.entries) (fun _ _ => trivial)
      ⟨hi, .refl n i d⟩
    have happly := Overlay.apply_memory { changes := cs, base := m }
    simp only at happly
    rw [happly] at hr hh
    have hchanges : (d.changes? c).getD [] = cs.entries := by rw [changes?, hcs]; rfl
    rw [Depot.settle, hchanges]
    simp only [Bool.false_eq_true, if_false]
    generalize (store i).apply cs.entries d = r at hr hh hch
    obtain ⟨r, d'⟩ := r
    simp only at hr
    subst hr
    exact ⟨rfl, hh, hch⟩

/-- The step that makes a change to the store of a name. -/
def Step.change (name key : Bytes) : Change → Step
  | .value v => .set name key v
  | .deleted => .delete name key

theorem Holds.step_change {m : Memory} (h : d.Holds i m) {name : Bytes} (hname : d.names.get? name = some i)
    (k : Bytes) (c : Change) :
    d.step (.change name k c) = (.single (.ok .done), ((store i).change k c d).2) := by
  have hr := (h.change 0 k c).1
  cases c with
  | value v =>
    simp only [Step.change, step, withWritable, withStore, hname, h.sound.writable, if_true]
    change (d.set i k v).1 = .ok () at hr
    show (Answer.single (plainly (d.set i k v)).1, (plainly (d.set i k v)).2) = (_, (d.set i k v).2)
    generalize d.set i k v = r at hr
    obtain ⟨r, d'⟩ := r
    subst hr
    rfl
  | deleted =>
    simp only [Step.change, step, withWritable, withStore, hname, h.sound.writable, if_true]
    change (d.delete i k).1 = .ok () at hr
    show (Answer.single (plainly (d.delete i k)).1, (plainly (d.delete i k)).2) = (_, (d.delete i k).2)
    generalize d.delete i k = r at hr
    obtain ⟨r, d'⟩ := r
    subst hr
    rfl

/-- A script on a store that never fails gets the answers of the reference interpreter on the
contents, leaves the contents that it leaves, and changes no other store that was there. -/
theorem run_steps (sc : Script) (fails : Bool) : ∀ {n i : Nat} {d : Depot} {m : Memory}, d.Holds i m →
    d.names.get? (level n) = some i →
      Answer.seenAll (d.run (sc.steps n)).1 = ((sc.nested fails).reference m).seen ∧
        (d.run (sc.steps n)).2.Holds i ((sc.nested fails).reference m).state ∧
        Changed n i d (d.run (sc.steps n)).2 := by
  induction sc generalizing fails with
  | done =>
    intro n i d m h hname
    exact ⟨rfl, h, .refl n i d⟩
  | get k rest ih =>
    intro n i d m h hname
    obtain ⟨hseen, hh, hch⟩ := ih fails h hname
    simp only [Script.steps, run, step, withStore, hname, h.get]
    exact ⟨congrArg _ hseen, hh, hch⟩
  | set k v rest ih =>
    intro n i d m h hname
    obtain ⟨-, hh, hch⟩ := h.change n k (.value v)
    obtain ⟨hseen, hh', hch'⟩ := ih fails hh ((hch.names n (Nat.le_refl n)).trans hname)
    have hstep := h.step_change hname k (.value v)
    simp only [Step.change] at hstep
    simp only [Script.steps, run, hstep]
    exact ⟨congrArg _ hseen, hh', hch.trans hch'⟩
  | delete k rest ih =>
    intro n i d m h hname
    obtain ⟨-, hh, hch⟩ := h.change n k .deleted
    obtain ⟨hseen, hh', hch'⟩ := ih fails hh ((hch.names n (Nat.le_refl n)).trans hname)
    have hstep := h.step_change hname k .deleted
    simp only [Step.change] at hstep
    simp only [Script.steps, run, hstep]
    exact ⟨congrArg _ hseen, hh', hch.trans hch'⟩
  | stage block f rest ihb ih =>
    intro n i d m h hname
    have hi := h.sound.lt
    obtain ⟨hbase, hchild⟩ := h.open (level (n + 1))
    obtain ⟨hinner, hblock, hb⟩ := ihb f hchild
      (show (d.add (level (n + 1)) (.snapshot Table.empty (some i))).names.get? (level (n + 1)) =
        some d.nodes.length by simp [add])
    have hparent := hb.parent
    rw [show parent? (d.add (level (n + 1)) (.snapshot Table.empty (some i))).nodes[d.nodes.length]? =
      some (some i) by simp [add, parent?]] at hparent
    generalize hrun : (d.add (level (n + 1)) (.snapshot Table.empty (some i))).run (block.steps (n + 1)) = r
      at hinner hblock hb hparent
    obtain ⟨inner, d₂⟩ := r
    -- the block has left the store alone on which it stands, and is now closed
    have hunder : d₂.Holds i m := h.congr fun j hj => hb.before j (Nat.lt_of_le_of_lt hj hi)
    obtain ⟨hout, hh, hclosed⟩ := hblock.settle (n := n) hunder hparent hi f
    have hch := (hb.block hi).trans hclosed
    have hstep : d.step (.stage (level n) (level (n + 1)) (block.steps (n + 1)) f) =
        (.mk (d₂.settle i d.nodes.length f).1 (some inner), (d₂.settle i d.nodes.length f).2) := by
      simp only [step, hname, h.sound.writable, if_true, hrun]
    obtain ⟨hseen, hh', hch'⟩ := ih fails hh ((hch.names n (Nat.le_refl n)).trans hname)
    simp only [Script.steps, run, hstep, Script.nested, Nested.reference, Nested.Ran.after, reference_result,
      Answer.seenAll, Answer.seen, hout, hinner]
    exact ⟨congrArg _ hseen, hh', hch.trans hch'⟩

end Depot

/-- Staging is transactional, to any depth. On a store that never fails and answers by its contents,
a computation with blocks gets the results, and leaves the contents, of the reference interpreter,
which works on one plain map, copies it when a block is entered and puts the copy back when the
block fails. The same holds of a session of a depot whose blocks work on stores by name. -/
theorem nested_staging_transactional :
    (∀ {σ : Type} {s : Store σ} {keys : Bytes → Prop} {holds : σ → Memory → Prop}, s.Faithful keys holds →
      ∀ {p : Nested}, p.Uses keys → ∀ {st : σ} {m : Memory}, holds st m →
        (p.run s st).result = (p.reference m).result ∧ (p.run s st).seen = (p.reference m).seen ∧
          ∀ k, keys k → (s.get k (p.run s st).state).1 = .ok ((p.reference m).state k)) ∧
      ∀ {d : Depot} {i n : Nat} {m : Memory}, d.Holds i m → d.names.get? (Depot.level n) = some i →
        ∀ sc : Depot.Script,
          Depot.Answer.seenAll (d.run (sc.steps n)).1 = ((sc.nested false).reference m).seen ∧
            ∀ k, (d.run (sc.steps n)).2.get i k = .ok (((sc.nested false).reference m).state k) := by
  constructor
  · intro σ s keys holds hs p hp st m h
    obtain ⟨hresult, hseen, hstate⟩ := p.run_faithful hs hp h
    exact ⟨hresult, hseen, fun k hk => (hs.get hk hstate).1⟩
  · intro d i n m h hname sc
    obtain ⟨hseen, hholds, -⟩ := Depot.run_steps sc false h hname
    exact ⟨hseen, hholds.get⟩

/-- A value is written; a block deletes it, and a block inside that one writes it again and fails. -/
def rewrittenInVain : Depot.Script :=
  .set [0x61] (some [1])
    (.stage (.delete [0x61] (.stage (.set [0x61] (some [2]) .done) true (.get [0x61] .done))) false (.get [0x61] .done))

/-- What is seen of it: the tombstone hides the value, in the block and after it. -/
def seenInVain : List Nested.Seen :=
  [.wrote (.ok ()), .wrote (.ok ()), .wrote (.ok ()), .closed (.error (.fault (.custom (utf8 "oops")))),
    .read (.ok none), .closed (.ok ()), .read (.ok none)]

theorem nested_staging_transactional_tombstone :
    Snapshot.store.Faithful (fun _ => True) (fun o m => Snapshot.contents o = m) ∧
      (rewrittenInVain.nested false).Uses (fun _ => True) ∧
      ((rewrittenInVain.nested false).run Snapshot.store Snapshot.new).seen = seenInVain ∧
      (({} : Depot).add [] (.snapshot Table.empty none)).Holds 0 Memory.empty ∧
      Depot.Answer.seenAll
        ((({} : Depot).add [] (.snapshot Table.empty none)).run (rewrittenInVain.steps 0)).1 = seenInVain := by
  have huses : (rewrittenInVain.nested false).Uses (fun _ => True) := by
    simp [rewrittenInVain, Depot.Script.nested, Nested.Uses]
  have hholds : (({} : Depot).add [] (.snapshot Table.empty none)).Holds 0 Memory.empty :=
    show Depot.Holds _ 0 (Snapshot.contents Snapshot.new) from Depot.holds_alone rfl
  have hreference : ((rewrittenInVain.nested false).reference Memory.empty).seen = seenInVain := rfl
  obtain ⟨hstore, hdepot⟩ := nested_staging_transactional
  refine ⟨Snapshot.store_faithful, huses, ?_, hholds, ?_⟩
  · exact (hstore Snapshot.store_faithful huses Snapshot.contents_new).2.1.trans hreference
  · exact (hdepot (n := 0) hholds rfl rewrittenInVain).1.trans hreference

end CounterLedger
