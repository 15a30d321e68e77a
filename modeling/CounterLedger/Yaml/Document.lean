/-
Documents of YAML, read from tokens. Only the first document of a text is read, up to the token
after it.
-/
import CounterLedger.Table
import CounterLedger.Yaml.Node
import CounterLedger.Yaml.Token

namespace CounterLedger.Yaml

/-- The state between two nodes. -/
structure Reader where
  lexer : Lexer
  /-- What the handles of tags stand for. -/
  handles : List (Bytes × Bytes) := []
  /-- The numbers of the anchored nodes by name; a name may be given again. -/
  names : Table Nat := Table.empty
  anchored : Array Node := #[]
  aliases : Nat := 0

namespace Reader

/-- The next token. -/
def peek (r : Reader) : Option (Token × Reader) := do
  let (t, lexer) ← r.lexer.peek
  some (t, { r with lexer })

/-- Passes the next token. -/
def drop (r : Reader) : Reader := { r with lexer := r.lexer.drop }

/-! ## Properties -/

/-- What stands before the content of a node, and the line on which the node starts. -/
structure Properties where
  line : Nat
  anchor : Option Bytes := none
  tag : Bytes := []

/-- The tag of a handle and a suffix; none when the handle is not known. -/
def expand (r : Reader) (handle suffix : Bytes) : Option Bytes :=
  if handle = [] then some suffix else (r.handles.lookup handle).map (· ++ suffix)

/-- Reads an anchor and a tag, in any order. -/
def properties (r : Reader) : Option (Properties × Reader) := do
  let (t, r) ← r.peek
  match t.shape with
  | .anchor name =>
    let (u, r) ← r.drop.peek
    match u.shape with
    | .tag handle suffix =>
      let tag ← r.expand handle suffix
      some ({ line := t.line, anchor := some name, tag }, r.drop)
    | _ => some ({ line := t.line, anchor := some name }, r)
  | .tag handle suffix =>
    let tag ← r.expand handle suffix
    let (u, r) ← r.drop.peek
    match u.shape with
    | .anchor name => some ({ line := t.line, anchor := some name, tag }, r.drop)
    | _ => some ({ line := t.line, tag }, r)
  | _ => some ({ line := t.line }, r)

/-- Gives the anchor of a node its number, before the node is read. -/
def begin (r : Reader) (p : Properties) : Option Nat × Reader :=
  match p.anchor with
  | none => (none, r)
  | some name =>
    let number := r.anchored.size
    (some number, { r with names := r.names.insert name number, anchored := r.anchored.push default })

/-- Keeps a node under its number. -/
def finish (number : Option Nat) (n : Node) (r : Reader) : Node × Reader :=
  match number with
  | none => (n, r)
  | some i => (n, { r with anchored := r.anchored.setIfInBounds i n })

/-- Keeps a node without content under its number. Only a node with properties may have none. -/
def bare (number : Option Nat) (p : Properties) (r : Reader) : Option (Node × Reader) :=
  if p.anchor.isNone && p.tag = [] then none
  else some (finish number (.scalar p.line [] p.tag (p.tag = [])) r)

/-- An alias of a name that has been given to a node. -/
def aliasNode (r : Reader) (line : Nat) (name : Bytes) : Option (Node × Reader) :=
  match r.names.get? name with
  | none => none
  | some target => some (.alias line r.aliases target, { r with aliases := r.aliases + 1 })

/-! ## Nodes -/

/-- Whether the next token cannot start the key or the value of an entry of a block. -/
def endsContent : Shape → Bool
  | .key => true
  | .value => true
  | .blockEnd => true
  | _ => false

/-- Whether the next token cannot start an item of an indented sequence. -/
def endsItem : Shape → Bool
  | .blockEntry => true
  | .blockEnd => true
  | _ => false

/-- Whether the next token cannot start an item of a sequence that is not indented. -/
def endsPlainItem (s : Shape) : Bool :=
  match s with
  | .blockEntry => true
  | _ => endsContent s

/-- Whether the next token ends an entry between braces. -/
def endsFlowEntry : Shape → Bool
  | .flowEntry => true
  | .flowMappingEnd => true
  | _ => false

/-- Whether the next token ends an item between brackets. -/
def endsFlowItem : Shape → Bool
  | .flowEntry => true
  | .flowSequenceEnd => true
  | _ => false

/-- Whether the next token is the colon of a value. -/
def isValue : Shape → Bool
  | .value => true
  | _ => false

mutual

/-- Reads a node. Blocks are read where `block` allows them, and a sequence that is not indented
where `indentless` does. -/
def node : Nat → Bool → Bool → Reader → Option (Node × Reader)
  | 0, _, _, _ => none
  | n + 1, block, indentless, r =>
    match r.peek with
    | none => none
    | some (t, r) =>
      match t.shape with
      | .alias name => r.drop.aliasNode t.line name
      | _ =>
        match r.properties with
        | none => none
        | some (p, r) => content n block indentless p r

/-- Reads the content of a node after its properties. -/
def content : Nat → Bool → Bool → Properties → Reader → Option (Node × Reader)
  | 0, _, _, _, _ => none
  | n + 1, block, indentless, p, r =>
    match r.peek with
    | none => none
    | some (t, r) =>
      let (number, r) := r.begin p
      match t.shape with
      | .scalar text plain =>
        some (finish number (.scalar p.line text p.tag ((p.tag = [] && plain) || p.tag = utf8 "!")) r.drop)
      | .flowSequence =>
        match flowItems n true [] r.drop with
        | some (vs, r) => some (finish number (.sequence p.line vs) r)
        | none => none
      | .flowMapping =>
        match flowEntries n true [] r.drop with
        | some (es, r) => some (finish number (.mapping p.line es) r)
        | none => none
      | .blockSequence =>
        if block then
          match blockItems n [] r.drop with
          | some (vs, r) => some (finish number (.sequence p.line vs) r)
          | none => none
        else bare number p r
      | .blockMapping =>
        if block then
          match blockEntries n [] r.drop with
          | some (es, r) => some (finish number (.mapping p.line es) r)
          | none => none
        else bare number p r
      | .blockEntry =>
        if indentless then
          match plainItems n [] r with
          | some (vs, r) => some (finish number (.sequence p.line vs) r)
          | none => none
        else bare number p r
      | _ => bare number p r

/-- Reads a node, or nothing when the next token ends the place for it, which starts on a line. -/
def nodeUnless : Nat → (Shape → Bool) → Bool → Bool → Option Nat → Reader → Option (Node × Reader)
  | 0, _, _, _, _, _ => none
  | n + 1, ends, block, indentless, line, r =>
    match r.peek with
    | none => none
    | some (t, r) =>
      if ends t.shape then some (.nothing (line.getD t.line), r) else node n block indentless r

/-- Items of an indented sequence, up to its end. -/
def blockItems : Nat → List Node → Reader → Option (List Node × Reader)
  | 0, _, _ => none
  | n + 1, acc, r =>
    match r.peek with
    | some (⟨.blockEntry, line⟩, r) =>
      match nodeUnless n endsItem true false (some line) r.drop with
      | some (v, r) => blockItems n (v :: acc) r
      | none => none
    | some (⟨.blockEnd, _⟩, r) => some (acc.reverse, r.drop)
    | _ => none

/-- Items of a sequence that is not indented, up to the first token that is none of it. -/
def plainItems : Nat → List Node → Reader → Option (List Node × Reader)
  | 0, _, _ => none
  | n + 1, acc, r =>
    match r.peek with
    | some (⟨.blockEntry, line⟩, r) =>
      match nodeUnless n endsPlainItem true false (some line) r.drop with
      | some (v, r) => plainItems n (v :: acc) r
      | none => none
    | some (_, r) => some (acc.reverse, r)
    | none => none

/-- Entries of an indented mapping, up to its end. -/
def blockEntries : Nat → List (Node × Node) → Reader → Option (List (Node × Node) × Reader)
  | 0, _, _ => none
  | n + 1, acc, r =>
    match r.peek with
    | some (⟨.key, line⟩, r) =>
      match nodeUnless n endsContent true true (some line) r.drop with
      | none => none
      | some (k, r) =>
        match r.peek with
        | some (⟨.value, line⟩, r) =>
          match nodeUnless n endsContent true true (some line) r.drop with
          | some (v, r) => blockEntries n ((k, v) :: acc) r
          | none => none
        | some (t, r) => blockEntries n ((k, .nothing t.line) :: acc) r
        | none => none
    | some (⟨.blockEnd, _⟩, r) => some (acc.reverse, r.drop)
    | _ => none

/-- The value after a key between brackets or braces, which may be missing. -/
def flowValue : Nat → (Shape → Bool) → Reader → Option (Node × Reader)
  | 0, _, _ => none
  | n + 1, ends, r =>
    match r.peek with
    | none => none
    | some (t, r) =>
      if isValue t.shape then nodeUnless n ends false false none r.drop else some (.nothing t.line, r)

/-- The pair of a key and a value between brackets, after its mark. A token that takes the place of
the key is passed. -/
def flowPair : Nat → Reader → Option ((Node × Node) × Reader)
  | 0, _ => none
  | n + 1, r =>
    match r.peek with
    | none => none
    | some (t, r) =>
      let key := if isValue t.shape || endsFlowItem t.shape then some (Node.nothing t.line, r.drop)
        else node n false false r
      match key with
      | none => none
      | some (k, r) =>
        match flowValue n endsFlowItem r with
        | some (v, r) => some ((k, v), r)
        | none => none

/-- Items between brackets, up to the closing one. -/
def flowItems : Nat → Bool → List Node → Reader → Option (List Node × Reader)
  | 0, _, _, _ => none
  | n + 1, isFirst, acc, r =>
    match r.peek with
    | none => none
    | some (t, r) =>
      match t.shape, isFirst with
      | .flowSequenceEnd, _ => some (acc.reverse, r.drop)
      | .flowEntry, false => flowItem n acc r.drop
      | _, false => none
      | _, true => flowItem n acc r

/-- One item between brackets, a pair of a key and a value included, and the items after it. -/
def flowItem : Nat → List Node → Reader → Option (List Node × Reader)
  | 0, _, _ => none
  | n + 1, acc, r =>
    match r.peek with
    | none => none
    | some (t, r) =>
      match t.shape with
      | .flowSequenceEnd => some (acc.reverse, r.drop)
      | .key =>
        match flowPair n r.drop with
        | some (e, r) => flowItems n false (.mapping t.line [e] :: acc) r
        | none => none
      | _ =>
        match node n false false r with
        | some (v, r) => flowItems n false (v :: acc) r
        | none => none

/-- Entries between braces, up to the closing one. -/
def flowEntries : Nat → Bool → List (Node × Node) → Reader → Option (List (Node × Node) × Reader)
  | 0, _, _, _ => none
  | n + 1, isFirst, acc, r =>
    match r.peek with
    | none => none
    | some (t, r) =>
      match t.shape, isFirst with
      | .flowMappingEnd, _ => some (acc.reverse, r.drop)
      | .flowEntry, false => flowMember n acc r.drop
      | _, false => none
      | _, true => flowMember n acc r

/-- One entry between braces, and the entries after it. -/
def flowMember : Nat → List (Node × Node) → Reader → Option (List (Node × Node) × Reader)
  | 0, _, _ => none
  | n + 1, acc, r =>
    match r.peek with
    | none => none
    | some (t, r) =>
      match t.shape with
      | .flowMappingEnd => some (acc.reverse, r.drop)
      | .key =>
        match nodeUnless n (fun s => isValue s || endsFlowEntry s) false false none r.drop with
        | none => none
        | some (k, r) =>
          match flowValue n endsFlowEntry r with
          | some (v, r) => flowEntries n false ((k, v) :: acc) r
          | none => none
      | _ =>
        match node n false false r with
        | none => none
        | some (k, r) =>
          match r.peek with
          | some (t, r) => flowEntries n false ((k, .nothing t.line) :: acc) r
          | none => none

end

/-! ## Documents -/

/-- The handles that every document knows. -/
def defaultHandles : List (Bytes × Bytes) :=
  [(utf8 "!", utf8 "!"), (utf8 "!!", utf8 "tag:yaml.org,2002:")]

/-- Reads directives, of which there are at most `n`. A version may be told once, and a handle once;
what a document says of a handle counts before what all documents know. -/
def directives (told : Bool) : Nat → Reader → Option Reader
  | 0, _ => none
  | n + 1, r =>
    match r.peek with
    | none => none
    | some (t, r) =>
      match t.shape with
      | .directive (.version major minor) =>
        if told || major ≠ 1 || minor ≠ 1 then none else directives true n r.drop
      | .directive (.handle name start) =>
        if (r.handles.lookup name).isSome then none
        else directives told n { r.drop with handles := r.handles ++ [(name, start)] }
      | _ => some { r with handles := r.handles ++ defaultHandles }

/-- Whether a document has ended before its content. -/
def endsDocument : Shape → Bool
  | .directive _ => true
  | .documentStart => true
  | .documentEnd => true
  | .streamEnd => true
  | _ => false

/-- The document with a root that has been read. A token has to follow it. -/
def close (root : Node) (r : Reader) : Option Document := do
  let (_, r) ← r.peek
  some { root, anchored := r.anchored, aliases := r.aliases }

/-- Reads the first document: none when it cannot be read, and no document when there is none. -/
def document (fuel : Nat) (r : Reader) : Option (Option Document) := do
  let (t, r) ← r.peek
  match t.shape with
  | .streamEnd => some none
  | .directive _ | .documentStart =>
    let r ← directives false fuel r
    let (t, r) ← r.peek
    match t.shape with
    | .documentStart =>
      let (root, r) ← nodeUnless fuel endsDocument true false none r.drop
      (close root r).map some
    | _ => none
  | _ =>
    let (root, r) ← node fuel true false { r with handles := defaultHandles }
    (close root r).map some

end Reader

/-- Reads the first document of a text. Every step of reading takes a token or goes to a part of a
node, and a character makes few tokens. -/
def read (b : Bytes) : Option (Option Document) :=
  let source := Source.ofBytes b
  Reader.document (20 * source.left + 20) { lexer := { source } }

end CounterLedger.Yaml
