/-
Settings of a host: the identifier of its chain and the path of its database, read from a YAML
file. The file is a mapping; a field that is not in it keeps its default, and one that is unknown or
given twice is refused. All that is wrong with the fields is reported at once, in order.
-/
import CounterLedger.Directory
import CounterLedger.Host.Basic
import CounterLedger.Yaml.Document
import CounterLedger.Yaml.Tag

namespace CounterLedger

open Yaml (Document Node Tag)

/-- The settings of a host. -/
structure Settings where
  chain : Bytes := Host.defaultChain
  database : Bytes := utf8 "cwcounter.db"
deriving DecidableEq

namespace Settings

/-- A field of the file. -/
inductive Field where
  | chain
  | database
deriving DecidableEq

/-- The field of a name. -/
def field? (name : Bytes) : Option Field :=
  if name = utf8 "chain_id" then some .chain
  else if name = utf8 "db_path" then some .database
  else none

/-- Gives a field a value. -/
def set (s : Settings) (f : Field) (value : Bytes) : Settings :=
  match f with
  | .chain => { s with chain := value }
  | .database => { s with database := value }

/-! ## Complaints -/

/-- What is wrong in one place. -/
inductive Defect where
  | unknown (name : Bytes)
  | repeated (name : Bytes)
  /-- A sequence or a mapping where a text is wanted. -/
  | notText (tag : Tag)
  /-- Something else than a mapping in place of all fields, by its tag and its text. -/
  | notFields (tag text : Bytes)

/-- What is wrong, and on which line, counted from zero. -/
structure Complaint where
  line : Nat
  defect : Defect

/-- A scalar as it is shown in a complaint: between back quotes, and cut when it is long. What is
tagged as a sequence or a mapping is shown as it is. -/
def shownText (tag text : Bytes) : Bytes :=
  if tag = Tag.seq.name || tag = Tag.map.name then text
  else utf8 " \x60" ++ (if 10 < text.length then text.take 7 ++ utf8 "..." else text) ++ utf8 "\x60"

/-- The wording of a defect. -/
def Defect.message : Defect → Bytes
  | .unknown name => utf8 "field " ++ name ++ utf8 " not found in type host.Config"
  | .repeated name => utf8 "field " ++ name ++ utf8 " already set in type host.Config"
  | .notText tag => utf8 "cannot unmarshal " ++ Tag.shown tag.name ++ utf8 " into string"
  | .notFields tag text =>
    utf8 "cannot unmarshal " ++ Tag.shown tag ++ shownText tag text ++ utf8 " into host.Config"

/-- The wording of a complaint. -/
def Complaint.message (c : Complaint) : Bytes :=
  utf8 "line " ++ Numeral.decimal (c.line + 1) ++ utf8 ": " ++ c.defect.message

/-- The wording of all complaints. -/
def complaintsMessage (cs : List Complaint) : Bytes :=
  utf8 "yaml: unmarshal errors:" ++ cs.flatMap fun c => utf8 "\n  " ++ c.message

/-- The wording for a file that is not YAML. -/
def malformedMessage : Bytes := utf8 "yaml: syntax error"

/-! ## Drafts -/

/-- The settings as far as they have been read. -/
structure Draft where
  settings : Settings := {}
  /-- The complaints, the latest first. -/
  complaints : List Complaint := []
  /-- The number of nodes that have been read, and of those that have been read for an alias. -/
  nodes : Nat := 0
  aliased : Nat := 0

namespace Draft

/-- Adds a complaint. -/
def complain (d : Draft) (line : Nat) (defect : Defect) : Draft :=
  { d with complaints := ⟨line, defect⟩ :: d.complaints }

/-- Gives a field a value. -/
def set (d : Draft) (f : Field) (value : Bytes) : Draft := { d with settings := d.settings.set f value }

/-- The part of the nodes that may be read for aliases: nearly all of few nodes, and a tenth of very
many. The arithmetic is that of doubles, and where the part used is just as large, its rounding
decides. -/
def aliasShare (nodes : Nat) : Float :=
  if nodes ≤ 400000 then 0.99
  else if 4000000 ≤ nodes then 0.10
  else 0.99 - 0.89 * (Float.ofNat (nodes - 400000) / 3600000.0)

/-- Whether too much of the document has been read for aliases. -/
def isExcessive (d : Draft) : Bool :=
  100 < d.aliased && 1000 < d.nodes &&
    aliasShare d.nodes < Float.ofNat d.aliased / Float.ofNat d.nodes

/-- Counts a node, which may be read for an alias; none when there are too many of those. -/
def visit (d : Draft) (inAlias : Bool) : Option Draft :=
  let d' := { d with nodes := d.nodes + 1, aliased := if inAlias then d.aliased + 1 else d.aliased }
  if d'.isExcessive then none else some d'

end Draft

/-! ## Reading -/

/-- What a scalar stands for: a text, or nothing for a null. None when it does not fit its tag. -/
def meaning (text tag : Bytes) (implicit : Bool) : Option (Option Bytes) :=
  if tag ≠ [] then Tag.meaning tag text
  else some (if implicit && Tag.ofText true text = .null then none else some text)

/-- The name of the tag of a scalar: its own, or the one that its text tells. -/
def tagName (text tag : Bytes) (implicit : Bool) : Bytes :=
  if tag ≠ [] then tag else if implicit then (Tag.ofText true text).name else Tag.str.name

/-- The text that a node stands for, if there is no complaint about it. -/
def directText (d : Draft) (inAlias : Bool) (n : Node) : Option (Option Bytes × Draft) := do
  let d ← d.visit inAlias
  match n with
  | .scalar _ text tag implicit =>
    let content ← meaning text tag implicit
    some (some (content.getD []), d)
  | .sequence line _ => some (none, d.complain line (.notText .seq))
  | .mapping line _ => some (none, d.complain line (.notText .map))
  | .alias _ _ _ => none

/-- The text that a node or an alias stands for, if there is no complaint about it. -/
def text (doc : Document) (inAlias : Bool) (d : Draft) (n : Node) : Option (Option Bytes × Draft) :=
  match n with
  | .alias _ _ target => do
    let d ← d.visit inAlias
    let anchored ← doc.anchored[target]?
    directText d true anchored
  | _ => directText d inAlias n

/-- Whether a key asks for the entries of its value to be merged in. -/
def isMerge : Node → Bool
  | .scalar _ text tag implicit => text = utf8 "<<" && (implicit || tag = Tag.merge.name)
  | _ => false

/-- Takes an entry with a known or unknown name. Returns the fields that have been set so far. -/
def takeEntry (doc : Document) (inAlias : Bool) (d : Draft) (seen : List Field) (key value : Node) :
    Option (Draft × List Field) := do
  let (name, d) ← text doc inAlias d key
  match name with
  | none => some (d, seen)
  | some name =>
    match field? name with
    | none => some (d.complain key.line (.unknown name), seen)
    | some f =>
      if seen.contains f then some (d.complain key.line (.repeated name), seen)
      else do
        let (content, d) ← text doc inAlias d value
        match content with
        | some t => some (d.set f t, f :: seen)
        | none => some (d, f :: seen)

/-- The entries of a mapping, in order, taken by some way to go on. -/
abbrev Taker := List Nat → Draft → List (Node × Node) → Option Draft

/-- Merges a mapping or an alias of one. The aliases that are being read are given, and none of them
may be met again. -/
def mergeOne (doc : Document) (take : Taker) (active : List Nat) (d : Draft) : Node → Option Draft
  | .mapping _ entries => do
    let d ← d.visit (!active.isEmpty)
    take active d entries
  | .alias _ serial target => do
    let d ← d.visit (!active.isEmpty)
    if active.contains serial then none
    match doc.anchored[target]? with
    | some (.mapping _ entries) =>
      let d ← d.visit true
      take (serial :: active) d entries
    | _ => none
  | _ => none

/-- Merges a mapping, or the mappings of a sequence, of which the first counts most. -/
def merge (doc : Document) (take : Taker) (active : List Nat) (d : Draft) : Node → Option Draft
  | .sequence _ items => items.reverse.foldlM (mergeOne doc take active) d
  | n => mergeOne doc take active d n

/-- Takes the entries of a mapping in order; none when something that is no mapping has to be
merged. Merging may go `n` steps down. -/
def takeEntries (doc : Document) : Nat → Taker
  | 0, _, _, _ => none
  | n + 1, active, d, entries => do
    let (d, _) ← entries.foldlM (fun (d, seen) (key, value) =>
      if isMerge key then (merge doc (takeEntries doc n) active d value).map fun d => (d, seen)
      else takeEntry doc (!active.isEmpty) d seen key value) (d, [])
    some d

/-- The settings of a document. A null clears all fields. -/
def ofDocument (doc : Document) : Option Draft := do
  let d ← (← ({} : Draft).visit false).visit false
  match doc.root with
  | .mapping _ entries =>
    -- Each alias is entered at most once at a time, and between two of them the way leads down.
    takeEntries doc ((doc.aliases + 1) * (doc.root.height + 1)) [] d entries
  | .sequence line _ => some (d.complain line (.notFields Tag.seq.name []))
  | .scalar line t tag implicit =>
    match ← meaning t tag implicit with
    | none => some { d with settings := { chain := [], database := [] } }
    | some _ => some (d.complain line (.notFields (tagName t tag implicit) t))
  | .alias _ _ _ => none

/-- Reads the settings from the text of a file. Without a document the defaults stay. -/
def parse (content : Bytes) : Except Error Settings :=
  match Yaml.read content with
  | none => .error (.fault (.cannotParse malformedMessage))
  | some none => .ok {}
  | some (some doc) =>
    match ofDocument doc with
    | none => .error (.fault (.cannotParse malformedMessage))
    | some d =>
      if d.complaints.isEmpty then .ok d.settings
      else .error (.fault (.cannotParse (complaintsMessage d.complaints.reverse)))

/-- Reads the settings from a file, of which the content or the reason why it cannot be read is
given. A database is no text. -/
def ofFile : Except Bytes (Option Bytes) → Except Error Settings
  | .error why => .error (.fault (.cannotRead why))
  | .ok none => .error (.fault (.cannotParse malformedMessage))
  | .ok (some content) => parse content

/-- Reads the settings from a file of the directory. -/
def load (d : Directory) (path : Bytes) : Except Error Settings := ofFile (d.readText path)

end Settings

end CounterLedger
