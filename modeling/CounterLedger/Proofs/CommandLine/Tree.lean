/-
The tree of the commands of a draft. A program that drafts an application keeps the builders that its
declarations give and calls them later on; here a builder goes by a label of its own. Of the calls
that set one and the same thing, the last one counts. So the tree that is built has one command for
each name, made from the last settings of the builder that was declared last under it, and nothing
else about the calls shows in it: neither their order, nor the order in which names are kept, nor
calls on builders that have been replaced.
-/
import CounterLedger.CommandLine.Draft
import CounterLedger.Proofs.Table
import Mathlib.Data.List.Forall2
import Mathlib.Data.List.Induction

namespace CounterLedger.CommandLine

namespace Draft

variable {κ α : Type}

/-! ## Calls on builders -/

/-- A call on a builder, or on the application, which has no label. -/
inductive Call (κ α : Type) where
  /-- Declares a command and gives its builder. -/
  | declare (on : Option κ) (name : Bytes) (gives : κ)
  | describe (on : κ) (text : Bytes)
  | setAction (on : κ) (action : Option α)
  | setFlags (on : κ) (flags : List Flag)

/-- What a call sets. -/
inductive Slot (κ : Type) where
  | child (on : Option κ) (name : Bytes)
  | description (on : κ)
  | action (on : κ)
  | flags (on : κ)
deriving DecidableEq

def Slot.on : Slot κ → Option κ
  | child on _ => on
  | description on => some on
  | action on => some on
  | flags on => some on

namespace Call

def slot : Call κ α → Slot κ
  | declare on name _ => .child on name
  | describe on _ => .description on
  | setAction on _ => .action on
  | setFlags on _ => .flags on

/-- The builder that a call gives. -/
def gives? : Call κ α → Option κ
  | declare _ _ x => some x
  | _ => none

def text? : Call κ α → Option Bytes
  | describe _ text => some text
  | _ => none

def action? : Call κ α → Option α
  | setAction _ action => action
  | _ => none

def flags? : Call κ α → Option (List Flag)
  | setFlags _ flags => some flags
  | _ => none

end Call

/-- The builders that the calls give, in order. -/
def given (cs : List (Call κ α)) : List κ := cs.filterMap Call.gives?

/-- Each call is made on the application or on a builder given before, and gives a new builder, if
any. -/
def Proper (known : List κ) : List (Call κ α) → Prop
  | [] => True
  | c :: rest => (∀ x, c.slot.on = some x → x ∈ known) ∧ (∀ x, c.gives? = some x → x ∉ known) ∧
      Proper (known ++ c.gives?.toList) rest

theorem given_append_singleton (cs : List (Call κ α)) (c : Call κ α) :
    given (cs ++ [c]) = given cs ++ c.gives?.toList := by
  rw [given, List.filterMap_append]
  cases h : c.gives? <;> simp [given, h]

theorem proper_append_singleton {known : List κ} {cs : List (Call κ α)} {c : Call κ α} :
    Proper known (cs ++ [c]) ↔ Proper known cs ∧ (∀ x, c.slot.on = some x → x ∈ known ++ given cs) ∧
      ∀ x, c.gives? = some x → x ∉ known ++ given cs := by
  induction cs generalizing known with
  | nil => simp [Proper, given]
  | cons d rest ih =>
    have hgiven : given (d :: rest) = d.gives?.toList ++ given rest := by
      cases h : d.gives? <;> simp [given, h]
    rw [List.cons_append, Proper, ih, Proper, hgiven, List.append_assoc]
    tauto

/-! ## What the calls have set -/

/-- Of each thing that can be set, the last call that has set it. -/
abbrev View (κ α : Type) := Slot κ → Option (Call κ α)

namespace View

def child (w : View κ α) (on : Option κ) (name : Bytes) : Option κ := (w (.child on name)).bind Call.gives?

def description (w : View κ α) (x : κ) : Bytes := ((w (.description x)).bind Call.text?).getD []

def action (w : View κ α) (x : κ) : Option α := (w (.action x)).bind Call.action?

def flags (w : View κ α) (x : κ) : List Flag := ((w (.flags x)).bind Call.flags?).getD []

end View

variable [DecidableEq κ]

def viewOf (cs : List (Call κ α)) : View κ α := fun slot => (cs.filter fun c => c.slot = slot).getLast?

theorem viewOf_append_singleton (cs : List (Call κ α)) (c : Call κ α) (slot : Slot κ) :
    viewOf (cs ++ [c]) slot = if c.slot = slot then some c else viewOf cs slot := by
  by_cases h : c.slot = slot <;> simp [viewOf, List.filter_append, h]

theorem child_append_singleton (cs : List (Call κ α)) (c : Call κ α) (on : Option κ) (name : Bytes) :
    (viewOf (cs ++ [c])).child on name = if c.slot = .child on name then c.gives? else (viewOf cs).child on name := by
  rw [View.child, viewOf_append_singleton]
  split <;> rfl

theorem description_append_singleton (cs : List (Call κ α)) (c : Call κ α) (x : κ) :
    (viewOf (cs ++ [c])).description x =
      if c.slot = .description x then c.text?.getD [] else (viewOf cs).description x := by
  rw [View.description, viewOf_append_singleton]
  split <;> rfl

theorem action_append_singleton (cs : List (Call κ α)) (c : Call κ α) (x : κ) :
    (viewOf (cs ++ [c])).action x = if c.slot = .action x then c.action? else (viewOf cs).action x := by
  rw [View.action, viewOf_append_singleton]
  split <;> rfl

theorem flags_append_singleton (cs : List (Call κ α)) (c : Call κ α) (x : κ) :
    (viewOf (cs ++ [c])).flags x = if c.slot = .flags x then c.flags?.getD [] else (viewOf cs).flags x := by
  rw [View.flags, viewOf_append_singleton]
  split <;> rfl

theorem mem_of_viewOf {cs : List (Call κ α)} {slot : Slot κ} {c : Call κ α} (h : viewOf cs slot = some c) :
    c ∈ cs ∧ c.slot = slot := by
  simpa using List.mem_of_getLast? h

/-! ## The tree -/

/-- The commands are those that are declared on a builder, or on the application, by what is set: one
for each declared name, in ascending order of the names, with the settings and the commands of the
builder declared last under it. -/
inductive Canonical (w : View κ α) : Option κ → List (Command α) → Prop where
  | mk {on : Option κ} {tree : List (Command α)} :
    (tree.Pairwise fun c c' => c.name < c'.name) →
    (∀ name, name ∈ tree.map Command.name ↔ (w.child on name).isSome) →
    (∀ c ∈ tree, ∀ x, w.child on c.name = some x →
      c.description = w.description x ∧ c.action = w.action x ∧ c.flags = w.flags x) →
    (∀ c ∈ tree, ∀ x, w.child on c.name = some x → Canonical w (some x) c.commands) →
    Canonical w on tree

omit [DecidableEq κ] in
/-- There is one such tree. -/
theorem Canonical.unique {w : View κ α} {on : Option κ} {tree tree' : List (Command α)} (h : Canonical w on tree)
    (h' : Canonical w on tree') : tree = tree' := by
  induction h generalizing tree' with
  | @mk on tree hsorted hnames hset _ ih =>
    obtain ⟨hsorted', hnames', hset', hbelow'⟩ := h'
    -- commands of one name are made from one builder
    have hsame : ∀ c ∈ tree, ∀ c' ∈ tree', c.name = c'.name → c = c' := by
      intro c hc c' hc' hname
      obtain ⟨x, hx⟩ := Option.isSome_iff_exists.1 ((hnames c.name).1 (List.mem_map_of_mem hc))
      obtain ⟨hd, ha, hf⟩ := hset c hc x hx
      obtain ⟨hd', ha', hf'⟩ := hset' c' hc' x (hname ▸ hx)
      have hbelow := ih c hc x hx (hbelow' c' hc' x (hname ▸ hx))
      obtain ⟨⟩ := c
      obtain ⟨⟩ := c'
      simp_all
    have hmem : ∀ c, c ∈ tree ↔ c ∈ tree' := by
      intro c
      constructor
      · intro hc
        obtain ⟨c', hc', hname⟩ := List.mem_map.1 ((hnames' c.name).2 ((hnames c.name).1 (List.mem_map_of_mem hc)))
        rwa [hsame c hc c' hc' hname.symm]
      · intro hc'
        obtain ⟨c', hc, hname⟩ := List.mem_map.1 ((hnames c.name).2 ((hnames' c.name).1 (List.mem_map_of_mem hc')))
        rwa [← hsame c' hc c hc' hname]
    exact Table.eq_of_ascending hsorted hsorted' hmem

/-! ## The sketches of a draft -/

/-- The handle that a step works on. -/
def Edit.on : Edit α → Handle
  | .declare on _ => on
  | .describe on _ => on
  | .setAction on _ => on
  | .setFlags on _ => on

/-- What a step makes of the sketch of its handle, when the next command to be declared is `n`. -/
def Edit.change (n : Handle) : Edit α → Sketch α → Sketch α
  | .declare _ name, s => s.bind name n
  | .describe _ text, s => { s with description := text }
  | .setAction _ action, s => { s with action }
  | .setFlags _ flags, s => { s with flags }

omit [DecidableEq κ] in
theorem sketch_modify (d : Draft α) (on h : Handle) (f : Sketch α → Sketch α) :
    (d.modify on f).sketch h = if on = h ∧ on < d.next then f (d.sketch h) else d.sketch h := by
  unfold sketch modify next
  rw [List.getD_eq_getElem?_getD, List.getD_eq_getElem?_getD, List.getElem?_modify]
  by_cases hon : on = h
  · subst hon
    by_cases hlt : on < d.sketches.length <;> simp [hlt]
  · simp [hon]

/-- A step changes one sketch; a command that is declared has an empty one. -/
theorem sketch_edit (d : Draft α) (e : Edit α) (h : Handle) :
    (d.edit e).sketch h = if e.on = h ∧ e.on < d.next then e.change d.next (d.sketch h) else d.sketch h := by
  cases e with
  | declare on name =>
    refine Eq.trans ?_ (sketch_modify d on h fun s => s.bind name d.next)
    show (d.declare on name).sketch h = _
    unfold declare sketch
    simp only [List.getD_eq_getElem?_getD]
    generalize (d.modify on fun s => s.bind name d.next).sketches = l
    rcases Nat.lt_trichotomy h l.length with hlt | rfl | hlt
    · rw [List.getElem?_append_left hlt]
    · simp
    · rw [List.getElem?_eq_none (by simp; omega), List.getElem?_eq_none (Nat.le_of_lt hlt)]
  | describe on text => exact sketch_modify d on h _
  | setAction on action => exact sketch_modify d on h _
  | setFlags on flags => exact sketch_modify d on h _

theorem next_edit (d : Draft α) (e : Edit α) :
    (d.edit e).next = match e with
      | .declare _ _ => d.next + 1
      | _ => d.next := by
  cases e <;> simp [edit, declare, describe, setAction, setFlags, modify, next]

theorem ofEdits_append_singleton (es : List (Edit α)) (e : Edit α) : ofEdits (es ++ [e]) = (ofEdits es).edit e := by
  rw [ofEdits, List.foldl_append]
  rfl

/-- A sketch keeps a name once. -/
theorem nodup_names (es : List (Edit α)) (h : Handle) : (((ofEdits es).sketch h).names.map Prod.fst).Nodup := by
  induction es using List.reverseRecOn with
  | nil => cases h <;> exact List.nodup_nil
  | append_singleton es e ih =>
    rw [ofEdits_append_singleton, sketch_edit]
    generalize (ofEdits es).sketch h = s at ih
    split
    · cases e with
      | declare on name =>
        have hrest := ih.sublist ((List.filter_sublist (p := fun e => decide (e.1 ≠ name))).map Prod.fst)
        simpa [Edit.change, Sketch.bind] using hrest
      | describe on text => exact ih
      | setAction on action => exact ih
      | setFlags on flags => exact ih
    · exact ih

/-- The handle of a builder: its number in order of declaration. -/
def handleOf (builders : List κ) : Option κ → Handle
  | none => root
  | some x => builders.idxOf x + 1

/-- The step of drafting that a call is. -/
def Call.edit (builders : List κ) : Call κ α → Edit α
  | .declare on name _ => .declare (handleOf builders on) name
  | .describe on text => .describe (handleOf builders (some on)) text
  | .setAction on action => .setAction (handleOf builders (some on)) action
  | .setFlags on flags => .setFlags (handleOf builders (some on)) flags

/-- The draft after some calls. -/
def ofCalls (cs : List (Call κ α)) : Draft α := ofEdits (cs.map (Call.edit (given cs)))

theorem Call.on_edit (builders : List κ) (c : Call κ α) : (c.edit builders).on = handleOf builders c.slot.on := by
  cases c <;> rfl

theorem handleOf_inj {builders : List κ} {on on' : Option κ} (hon : ∀ x, on = some x → x ∈ builders)
    (h : handleOf builders on = handleOf builders on') : on = on' := by
  cases on with
  | none =>
    cases on' with
    | none => rfl
    | some y => simp [handleOf, root] at h
  | some x =>
    cases on' with
    | none => simp [handleOf, root] at h
    | some y => rw [(List.idxOf_inj (hon x rfl)).1 (Nat.succ.inj h)]

/-- The sketch shows what is set of a builder. -/
structure Shows (builders : List κ) (w : View κ α) (on : Option κ) (s : Sketch α) : Prop where
  names : ∀ name, Table.findEntry name s.names = (w.child on name).map fun x => handleOf builders (some x)
  settings : ∀ x, on = some x → s.description = w.description x ∧ s.action = w.action x ∧ s.flags = w.flags x

variable {builders : List κ} {cs : List (Call κ α)} {on : Option κ} {s : Sketch α}

theorem Shows.other {c : Call κ α} (h : Shows builders (viewOf cs) on s) (hon : c.slot.on ≠ on) :
    Shows builders (viewOf (cs ++ [c])) on s := by
  have hslot : ∀ slot : Slot κ, slot.on = on → c.slot ≠ slot := fun slot hs he => hon (he ▸ hs)
  refine ⟨fun name => ?_, ?_⟩
  · rw [child_append_singleton, if_neg (hslot _ rfl)]
    exact h.names name
  · rintro x rfl
    rw [description_append_singleton, action_append_singleton, flags_append_singleton, if_neg (hslot _ rfl),
      if_neg (hslot _ rfl), if_neg (hslot _ rfl)]
    exact h.settings x rfl

theorem Shows.step {c : Call κ α} (h : Shows builders (viewOf cs) on s) (hon : c.slot.on = on) {n : Handle}
    (hn : ∀ x, c.gives? = some x → n = handleOf builders (some x)) :
    Shows builders (viewOf (cs ++ [c])) on ((c.edit builders).change n s) := by
  -- a call that is no declaration leaves the names as they are
  have hnames : (∀ on name, c.slot ≠ .child on name) → ∀ name,
      Table.findEntry name s.names = ((viewOf (cs ++ [c])).child on name).map fun x => handleOf builders (some x) :=
    fun hc name => by rw [child_append_singleton, if_neg (hc on name), h.names]
  cases c with
  | declare on' name x =>
    obtain rfl : on' = on := hon
    refine ⟨fun name' => ?_, fun y hy => ?_⟩
    · show Table.findEntry name' ((name, n) :: s.names.filter fun e => e.1 ≠ name) = _
      rw [Table.findEntry, Table.findEntry_filter, child_append_singleton]
      by_cases hname : name = name'
      · simp [hname, Call.slot, Call.gives?, hn x rfl]
      · simpa [hname, Call.slot] using h.names name'
    · rw [description_append_singleton, action_append_singleton, flags_append_singleton]
      exact h.settings y hy
  | describe x text =>
    refine ⟨hnames (fun _ _ he => by cases he), fun y hy => ?_⟩
    obtain rfl : x = y := Option.some.inj (hon.trans hy)
    rw [description_append_singleton, action_append_singleton, flags_append_singleton]
    exact ⟨(if_pos rfl).symm, (h.settings x hy).2⟩
  | setAction x action =>
    refine ⟨hnames (fun _ _ he => by cases he), fun y hy => ?_⟩
    obtain rfl : x = y := Option.some.inj (hon.trans hy)
    rw [description_append_singleton, action_append_singleton, flags_append_singleton]
    obtain ⟨hd, -, hf⟩ := h.settings x hy
    exact ⟨hd, (if_pos rfl).symm, hf⟩
  | setFlags x flags =>
    refine ⟨hnames (fun _ _ he => by cases he), fun y hy => ?_⟩
    obtain rfl : x = y := Option.some.inj (hon.trans hy)
    rw [description_append_singleton, action_append_singleton, flags_append_singleton]
    obtain ⟨hd, ha, -⟩ := h.settings x hy
    exact ⟨hd, ha, (if_pos rfl).symm⟩

/-- The draft shows what the calls have set of each builder, and a builder stands behind the one that
it was declared on. -/
structure Represents (builders : List κ) (d : Draft α) (cs : List (Call κ α)) : Prop where
  next : d.next = (given cs).length + 1
  shows : ∀ on, (∀ x, on = some x → x ∈ builders) → Shows builders (viewOf cs) on (d.sketch (handleOf builders on))
  later : ∀ on name x, (viewOf cs).child on name = some x →
    x ∈ given cs ∧ handleOf builders on < handleOf builders (some x)

theorem handleOf_lt {known : List κ} (h : known <+: builders) (hon : ∀ x, on = some x → x ∈ known) :
    handleOf builders on < known.length + 1 := by
  obtain ⟨rest, rfl⟩ := h
  cases on with
  | none => exact Nat.succ_pos _
  | some x =>
    have hx := hon x rfl
    rw [handleOf, List.idxOf_append_of_mem hx]
    exact Nat.succ_lt_succ (List.idxOf_lt_length_iff.2 hx)

theorem handleOf_next {known : List κ} {x : κ} (h : known ++ [x] <+: builders) (hx : x ∉ known) :
    handleOf builders (some x) = known.length + 1 := by
  obtain ⟨rest, rfl⟩ := h
  rw [handleOf, List.append_assoc, List.idxOf_append_of_notMem hx]
  simp

theorem represents {cs : List (Call κ α)} (hproper : Proper [] cs) (hgiven : given cs <+: builders) :
    Represents builders (ofEdits (cs.map (Call.edit builders))) cs := by
  induction cs using List.reverseRecOn with
  | nil =>
    have hsketch : ∀ h, (ofEdits ([] : List (Edit α))).sketch h = {} := by rintro (_ | h) <;> rfl
    refine ⟨rfl, fun on _ => ?_, fun on name x h => by cases h⟩
    rw [List.map_nil, hsketch]
    exact ⟨fun name => rfl, fun x hx => ⟨rfl, rfl, rfl⟩⟩
  | append_singleton cs c ih =>
    obtain ⟨hcs, hon, hfresh⟩ := proper_append_singleton.1 hproper
    rw [given_append_singleton] at hgiven
    rw [List.nil_append] at hon hfresh
    have hbefore := (List.prefix_append _ _).trans hgiven
    have h := ih hcs hbefore
    rw [List.map_append, List.map_singleton, ofEdits_append_singleton]
    generalize ofEdits (cs.map (Call.edit builders)) = d at h
    have hlt : handleOf builders c.slot.on < d.next := h.next ▸ handleOf_lt hbefore hon
    have hnew : ∀ x, c.gives? = some x → d.next = handleOf builders (some x) := fun x hx => by
      rw [hx] at hgiven
      rw [h.next, handleOf_next hgiven (hfresh x hx)]
    refine ⟨?_, fun on hknown => ?_, fun on name x hx => ?_⟩
    · rw [next_edit, given_append_singleton, List.length_append, h.next]
      cases c <;> rfl
    · rw [sketch_edit, Call.on_edit]
      by_cases hsame : c.slot.on = on
      · subst hsame
        rw [if_pos ⟨rfl, hlt⟩]
        exact (h.shows _ hknown).step rfl hnew
      · have hne : handleOf builders c.slot.on ≠ handleOf builders on := fun he =>
          hsame (handleOf_inj hknown he.symm).symm
        rw [if_neg fun hc => hne hc.1]
        exact (h.shows on hknown).other hsame
    · rw [given_append_singleton]
      rw [child_append_singleton] at hx
      split at hx
      · rename_i hslot
        refine ⟨List.mem_append_right _ (by simp [hx]), ?_⟩
        rw [← hnew x hx]
        rwa [hslot] at hlt
      · obtain ⟨hmem, hlater⟩ := h.later on name x hx
        exact ⟨List.mem_append_left _ hmem, hlater⟩

/-! ## Building -/

/-- What a draft is built into below a builder is the tree of what has been set. -/
theorem Represents.canonical {d : Draft α} (h : Represents (given cs) d cs)
    (hnodup : ∀ n, ((d.sketch n).names.map Prod.fst).Nodup) (depth : Nat) (on : Option κ)
    (hon : ∀ x, on = some x → x ∈ given cs) (hdepth : d.next ≤ depth + handleOf (given cs) on) :
    Canonical (viewOf cs) on (d.commandsBelow depth (handleOf (given cs) on)) := by
  induction depth generalizing on with
  | zero =>
    rw [Nat.zero_add, h.next] at hdepth
    exact absurd (handleOf_lt (List.prefix_refl (given cs)) hon) (Nat.not_lt.2 hdepth)
  | succ depth ih =>
    have hnames := (h.shows on hon).names
    -- the names of the sketch lead to the builders that were declared last under them
    have hentry : ∀ name child, (name, child) ∈ (Table.ofList (d.sketch (handleOf (given cs) on)).names).entries ↔
        ∃ x, (viewOf cs).child on name = some x ∧ handleOf (given cs) (some x) = child := by
      intro name child
      rw [Table.mem_entries_iff, Table.get?_ofList (hnodup _), hnames, Option.map_eq_some_iff]
    have hmade : ∀ c ∈ d.commandsBelow (depth + 1) (handleOf (given cs) on), ∀ x, (viewOf cs).child on c.name = some x →
        c.description = (d.sketch (handleOf (given cs) (some x))).description ∧
          c.action = (d.sketch (handleOf (given cs) (some x))).action ∧
          c.flags = (d.sketch (handleOf (given cs) (some x))).flags ∧
          c.commands = d.commandsBelow depth (handleOf (given cs) (some x)) := by
      intro c hc x hx
      rw [commandsBelow] at hc
      obtain ⟨⟨name, child⟩, hmem, rfl⟩ := List.mem_map.1 hc
      obtain ⟨y, hy, rfl⟩ := (hentry name child).1 hmem
      obtain rfl : y = x := Option.some.inj (hy.symm.trans hx)
      exact ⟨rfl, rfl, rfl, rfl⟩
    refine .mk ?_ (fun name => ?_) (fun c hc x hx => ?_) (fun c hc x hx => ?_)
    · rw [commandsBelow]
      exact List.pairwise_map.2 (Table.sorted _)
    · rw [commandsBelow, List.map_map, Option.isSome_iff_exists, List.mem_map]
      constructor
      · rintro ⟨⟨name', child⟩, hmem, rfl⟩
        obtain ⟨x, hx, -⟩ := (hentry name' child).1 hmem
        exact ⟨x, hx⟩
      · rintro ⟨x, hx⟩
        exact ⟨(name, _), (hentry name _).2 ⟨x, hx, rfl⟩, rfl⟩
    · obtain ⟨hd, ha, hf, -⟩ := hmade c hc x hx
      obtain ⟨hd', ha', hf'⟩ := (h.shows (some x) (by simpa using (h.later on c.name x hx).1)).settings x rfl
      exact ⟨hd.trans hd', ha.trans ha', hf.trans hf'⟩
    · obtain ⟨hmem, hlater⟩ := h.later on c.name x hx
      rw [(hmade c hc x hx).2.2.2]
      refine ih (some x) (by simpa using hmem) ?_
      calc d.next ≤ depth + 1 + handleOf (given cs) on := hdepth
        _ = depth + (handleOf (given cs) on + 1) := by rw [Nat.add_assoc, Nat.add_comm 1]
        _ ≤ depth + handleOf (given cs) (some x) := Nat.add_le_add_left hlater depth

theorem canonical_commands {cs : List (Call κ α)} (h : Proper [] cs) :
    Canonical (viewOf cs) none (ofCalls cs).commands := by
  have hrep : Represents (given cs) (ofCalls cs) cs := represents h (List.prefix_refl _)
  exact hrep.canonical (nodup_names _) (ofCalls cs).sketches.length none (fun x hx => by cases hx) (Nat.le_add_right _ _)

/-! ## Orders of names -/

/-- Two sketches that differ in the order of their names only. -/
structure Reordered (s s' : Sketch α) : Prop where
  description : s'.description = s.description
  action : s'.action = s.action
  flags : s'.flags = s.flags
  names : s'.names.Perm s.names

omit [DecidableEq κ] in
theorem reordered_sketch {d d' : Draft α} (h : List.Forall₂ Reordered d.sketches d'.sketches) (n : Handle) :
    Reordered (d.sketch n) (d'.sketch n) := by
  unfold sketch
  rw [List.getD_eq_getElem?_getD, List.getD_eq_getElem?_getD]
  generalize d.sketches = l at h
  generalize d'.sketches = l' at h
  induction h generalizing n with
  | nil => exact ⟨rfl, rfl, rfl, .refl _⟩
  | cons hs _ ih =>
    cases n with
    | zero => simpa using hs
    | succ n => simpa using ih n

omit [DecidableEq κ] in
/-- The commands of a draft do not depend on the order in which its names are kept. -/
theorem commandsBelow_reordered {d d' : Draft α} (h : List.Forall₂ Reordered d.sketches d'.sketches)
    (hnodup : ∀ n, ((d.sketch n).names.map Prod.fst).Nodup) (depth : Nat) (n : Handle) :
    d'.commandsBelow depth n = d.commandsBelow depth n := by
  induction depth generalizing n with
  | zero => rfl
  | succ depth ih =>
    have hnames := (reordered_sketch h n).names
    have htable : Table.ofList (d'.sketch n).names = Table.ofList (d.sketch n).names :=
      Table.ofList_perm hnames ((hnames.map Prod.fst).nodup_iff.2 (hnodup n))
    rw [commandsBelow, commandsBelow, htable]
    refine List.map_congr_left fun e _ => ?_
    obtain ⟨hd, ha, hf, -⟩ := reordered_sketch h e.2
    simp only [hd, ha, hf, ih]

/-! ## Builders that have been replaced -/

/-- The application, and the builders that commands of the tree are made from. -/
inductive Attached (w : View κ α) : Option κ → Prop where
  | root : Attached w none
  | child {on : Option κ} {name : Bytes} {x : κ} : Attached w on → w.child on name = some x → Attached w (some x)

/-- The builder is not the last one that was declared under its name, or it stands below such a
builder. -/
inductive Replaced (cs : List (Call κ α)) : κ → Prop where
  | redeclared {on : Option κ} {name : Bytes} {x : κ} :
    .declare on name x ∈ cs → (viewOf cs).child on name ≠ some x → Replaced cs x
  | inside {y : κ} {name : Bytes} {x : κ} : .declare (some y) name x ∈ cs → Replaced cs y → Replaced cs x

omit [DecidableEq κ] in
/-- What is set of other builders than those of the tree does not count. -/
theorem Canonical.congr {w w' : View κ α} {tree : List (Command α)} (h : Canonical w on tree)
    (hon : Attached w on) (hsame : ∀ slot : Slot κ, Attached w slot.on → w' slot = w slot) :
    Canonical w' on tree := by
  induction h with
  | @mk on tree hsorted hnames hset _ ih =>
    have hchild : ∀ name, w'.child on name = w.child on name := fun name => by
      rw [View.child, hsame (.child on name) hon, ← View.child]
    refine .mk hsorted (fun name => by rw [hchild, hnames]) (fun c hc x hx => ?_) (fun c hc x hx => ?_)
    · rw [hchild] at hx
      have hx' : Attached w (some x) := .child hon hx
      rw [View.description, View.action, View.flags, hsame (.description x) hx', hsame (.action x) hx',
        hsame (.flags x) hx']
      exact hset c hc x hx
    · rw [hchild] at hx
      exact ih c hc x hx (.child hon hx)

theorem declare_mem_of_child {name : Bytes} {x : κ} (h : (viewOf cs).child on name = some x) :
    .declare on name x ∈ cs := by
  obtain ⟨c, hc, hx⟩ := Option.bind_eq_some_iff.1 h
  obtain ⟨hmem, hslot⟩ := mem_of_viewOf hc
  cases c with
  | declare on' name' x' =>
    obtain ⟨rfl, rfl⟩ : on' = on ∧ name' = name := by simpa [Call.slot] using hslot
    obtain rfl : x' = x := Option.some.inj hx
    exact hmem
  | describe => cases hx
  | setAction => cases hx
  | setFlags => cases hx

omit [DecidableEq κ] in
/-- A builder is given once. -/
theorem Proper.unique {cs : List (Call κ α)} (h : Proper [] cs) {c c' : Call κ α} (hc : c ∈ cs) (hc' : c' ∈ cs)
    {x : κ} (hx : c.gives? = some x) (hx' : c'.gives? = some x) : c = c' := by
  induction cs using List.reverseRecOn with
  | nil => cases hc
  | append_singleton cs d ih =>
    obtain ⟨hcs, -, hfresh⟩ := proper_append_singleton.1 h
    rw [List.nil_append] at hfresh
    have hold : ∀ {e : Call κ α}, e ∈ cs → e.gives? = some x → d.gives? ≠ some x := fun he hex hdx =>
      hfresh x hdx (List.mem_filterMap.2 ⟨_, he, hex⟩)
    rw [List.mem_append, List.mem_singleton] at hc hc'
    rcases hc with hc | rfl
    · rcases hc' with hc' | rfl
      · exact ih hcs hc hc'
      · exact absurd hx' (hold hc hx)
    · rcases hc' with hc' | rfl
      · exact absurd hx (hold hc' hx')
      · rfl

theorem Replaced.not_attached {x : κ} (h : Replaced cs x) (hcs : Proper [] cs) : ¬ Attached (viewOf cs) (some x) := by
  induction h with
  | @redeclared on name x hmem hne =>
    rintro ⟨⟩
    rename_i on' name' _ hchild
    have heq := hcs.unique hmem (declare_mem_of_child hchild) rfl rfl
    injection heq with hon hname
    subst hon hname
    exact hne hchild
  | @inside y name x hmem _ ih =>
    rintro ⟨⟩
    rename_i on' name' hattached hchild
    have heq := hcs.unique hmem (declare_mem_of_child hchild) rfl rfl
    injection heq with hon
    subst hon
    exact ih hattached

/-- The tree that is built is canonical. For all calls that can be made on the builders of an
application, it has at every level one command for each declared name, in ascending order of the
names, with the description, the action, the flags and the commands last set on the builder declared
last under that name, and it is the only such tree. The order in which names are kept does not show
in it. Nor does the order of the calls, as long as those that set the same thing come in the same
order; nor do calls on builders that have been replaced, or that stand below such builders. -/
theorem built_tree_canonical {cs : List (Call κ α)} (h : Proper [] cs) :
    let tree := (ofCalls cs).commands
    (Canonical (viewOf cs) none tree ∧ ∀ other, Canonical (viewOf cs) none other → other = tree) ∧
      (∀ d : Draft α, List.Forall₂ Reordered (ofCalls cs).sketches d.sketches → d.commands = tree) ∧
      (∀ cs', Proper [] cs' →
        (∀ slot, (cs'.filter fun c => c.slot = slot) = cs.filter fun c => c.slot = slot) →
        (ofCalls cs').commands = tree) ∧
      ∀ kept, Proper [] (cs.filter kept) →
        (∀ c ∈ cs, kept c = false → ∃ x, c.slot.on = some x ∧ Replaced cs x) →
        (ofCalls (cs.filter kept)).commands = tree := by
  intro tree
  have htree : Canonical (viewOf cs) none tree := canonical_commands h
  refine ⟨⟨htree, fun other hother => hother.unique htree⟩, fun d hd => ?_, fun cs' h' hsame => ?_,
    fun kept h' hreplaced => ?_⟩
  · have hlength : d.sketches.length = (ofCalls cs).sketches.length := hd.length_eq.symm
    rw [commands, hlength]
    exact commandsBelow_reordered hd (nodup_names _) _ _
  · have hview : viewOf cs' = viewOf cs := funext fun slot => by rw [viewOf, hsame, viewOf]
    exact (canonical_commands h').unique (hview ▸ htree)
  · refine (canonical_commands h').unique (htree.congr .root fun slot hslot => ?_)
    -- a call that is left out sets nothing of a builder in the tree
    rw [viewOf, viewOf, List.filter_filter]
    congr 1
    refine List.filter_congr fun c hc => ?_
    cases hkept : kept c with
    | true => simp
    | false =>
      obtain ⟨x, hx, hrep⟩ := hreplaced c hc hkept
      have hne : c.slot ≠ slot := fun he => hrep.not_attached h (hx ▸ he ▸ hslot)
      simp [hne]

/-- A command is declared and replaced by another one of its name; the first one is described later,
and so is a command below it. -/
def redeclaring : List (Call Nat Nat) :=
  [.declare none [0x62] 0, .declare none [0x61] 1, .declare (some 0) [0x78] 2, .declare none [0x62] 3,
    .setAction 3 (some 7), .describe 0 [1], .describe 2 [2]]

/-- The same calls, with the names in another order. -/
def rearranged : List (Call Nat Nat) :=
  [.declare none [0x61] 1, .declare none [0x62] 0, .declare none [0x62] 3, .setAction 3 (some 7),
    .declare (some 0) [0x78] 2, .describe 2 [2], .describe 0 [1]]

/-- Whether a call is on a builder that has not been replaced. -/
def standing (c : Call Nat Nat) : Bool := c.slot.on ≠ some 0 && c.slot.on ≠ some 2

/-- A draft that keeps its names the other way round. -/
def turned (d : Draft α) : Draft α := ⟨d.sketches.map fun s => { s with names := s.names.reverse }⟩

theorem built_tree_canonical_redeclaring :
    Proper [] redeclaring ∧
      ((ofCalls redeclaring).commands.map fun c => (c.name, c.description, c.action)) =
        [([0x61], [], none), ([0x62], [], some 7)] ∧
      (∀ other, Canonical (viewOf redeclaring) none other → other = (ofCalls redeclaring).commands) ∧
      List.Forall₂ Reordered (ofCalls redeclaring).sketches (turned (ofCalls redeclaring)).sketches ∧
      (turned (ofCalls redeclaring)).commands = (ofCalls redeclaring).commands ∧
      Proper [] rearranged ∧
      (∀ slot, (rearranged.filter fun c => c.slot = slot) = redeclaring.filter fun c => c.slot = slot) ∧
      (ofCalls rearranged).commands = (ofCalls redeclaring).commands ∧
      Proper [] (redeclaring.filter standing) ∧
      (∀ c ∈ redeclaring, standing c = false → ∃ x, c.slot.on = some x ∧ Replaced redeclaring x) ∧
      (ofCalls (redeclaring.filter standing)).commands = (ofCalls redeclaring).commands := by
  have hproper : Proper [] redeclaring := by simp [redeclaring, Proper, Call.slot, Slot.on, Call.gives?]
  have hproper' : Proper [] rearranged := by simp [rearranged, Proper, Call.slot, Slot.on, Call.gives?]
  have hkept : Proper [] (redeclaring.filter standing) := by
    simp [redeclaring, standing, Proper, Call.slot, Slot.on, Call.gives?]
  have hturned : List.Forall₂ Reordered (ofCalls redeclaring).sketches (turned (ofCalls redeclaring)).sketches := by
    refine List.forall₂_map_right_iff.2 (List.forall₂_same.2 fun s _ => ?_)
    exact ⟨rfl, rfl, rfl, s.names.reverse_perm⟩
  have hslots : ∀ slot, (rearranged.filter fun c => c.slot = slot) = redeclaring.filter fun c => c.slot = slot := by
    intro slot
    cases slot <;> simp only [rearranged, redeclaring, List.filter_cons, Call.slot] <;> grind
  have hfirst : Replaced redeclaring 0 := by
    refine .redeclared (show Call.declare none [0x62] 0 ∈ redeclaring from ?_) (by decide)
    simp [redeclaring]
  have hbelow : Replaced redeclaring 2 := by
    refine .inside (show Call.declare (some 0) [0x78] 2 ∈ redeclaring from ?_) hfirst
    simp [redeclaring]
  have hreplaced : ∀ c ∈ redeclaring, standing c = false → ∃ x, c.slot.on = some x ∧ Replaced redeclaring x := by
    intro c _ hc
    have hon : c.slot.on = some 0 ∨ c.slot.on = some 2 := by
      simp only [standing, Bool.and_eq_false_iff, decide_eq_false_iff_not, ne_eq, not_not] at hc
      exact hc
    rcases hon with hon | hon
    · exact ⟨0, hon, hfirst⟩
    · exact ⟨2, hon, hbelow⟩
  obtain ⟨⟨-, hunique⟩, hnames, horder, hdropped⟩ := built_tree_canonical hproper
  exact ⟨hproper, by decide, hunique, hturned, hnames _ hturned, hproper', hslots, horder _ hproper' hslots, hkept,
    hreplaced, hdropped _ hkept hreplaced⟩

end Draft

end CounterLedger.CommandLine
