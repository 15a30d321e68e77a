/-
Tokens of YAML. Indentation is turned into tokens that open and close blocks. Whether a scalar or a
bracket is the key of a mapping is only known when its colon comes, so the place of a possible key
is remembered until then, and its token waits: a key has to be on one line and short.
-/
import Std.Data.TreeMap
import CounterLedger.Yaml.Block
import CounterLedger.Yaml.Property

namespace CounterLedger.Yaml

/-- What a token is. -/
inductive Shape where
  | directive (d : Directive)
  | documentStart
  | documentEnd
  | blockSequence
  | blockMapping
  | blockEnd
  | flowSequence
  | flowSequenceEnd
  | flowMapping
  | flowMappingEnd
  | blockEntry
  | flowEntry
  | key
  | value
  | alias (name : Bytes)
  | anchor (name : Bytes)
  | tag (handle suffix : Bytes)
  | scalar (text : Bytes) (plain : Bool)
  | streamEnd

/-- A token and the line on which it starts. -/
structure Token where
  shape : Shape
  line : Nat

/-- Where a key may have started: its place, and the number of its token. -/
structure KeyPlace where
  isPossible : Bool := false
  isRequired : Bool := false
  number : Nat := 0
  mark : Mark := {}

/-- Whether a possible key has become impossible: its line is over, or it is too long. -/
def KeyPlace.isStale (k : KeyPlace) (m : Mark) : Bool :=
  k.mark.line < m.line || k.mark.index + 1024 < m.index

/-- Whether a possible key can still come; none when it cannot but had to. -/
def KeyPlace.canCome (k : KeyPlace) (m : Mark) : Option Bool :=
  if !k.isStale m then some true else if k.isRequired then none else some false

/-- How deep brackets, and how deep blocks, may be nested. -/
def maxDepth : Nat := 10000

/-- The state between two tokens. -/
structure Lexer where
  source : Source
  /-- The tokens that wait to be taken, by number. Before the token with a number stand the ones that
  have been put before it since. -/
  queue : Std.TreeMap Nat (List Token) := {}
  /-- The number of the first token that waits. -/
  taken : Nat := 0
  /-- The number of the next token. -/
  made : Nat := 0
  /-- How many brackets are open. -/
  flow : Nat := 0
  /-- The column of the innermost block, those of the blocks around it, and their number. -/
  indent : Int := -1
  outer : List Int := []
  blocks : Nat := 0
  keyAllowed : Bool := true
  /-- The key places of the brackets, the innermost first, and of the block last. -/
  keys : List KeyPlace := [{}]
  /-- The places of the tokens that may turn out to be keys, by number. -/
  waiting : Std.TreeMap Nat KeyPlace := {}
  /-- Whether the end of the text has been reached. -/
  ended : Bool := false

namespace Lexer

/-! ## The queue -/

/-- Appends a token of a line. -/
def append (l : Lexer) (shape : Shape) (line : Nat) : Lexer :=
  { l with queue := l.queue.insert l.made [⟨shape, line⟩], made := l.made + 1 }

/-- Appends a token that starts here. -/
def push (l : Lexer) (shape : Shape) : Lexer := l.append shape l.source.mark.line

/-- Puts a token before the one with a number, or at the end if that does not wait. -/
def insert (l : Lexer) (number : Nat) (t : Token) : Lexer :=
  if l.queue.contains number then { l with queue := l.queue.modify number (t :: ·) }
  else l.append t.shape t.line

/-- The first token of the queue. -/
def head? (l : Lexer) : Option Token := l.queue[l.taken]?.bind List.head?

/-- Takes the first token out of the queue. -/
def drop (l : Lexer) : Lexer :=
  match l.queue[l.taken]? with
  | some (_ :: t :: rest) => { l with queue := l.queue.insert l.taken (t :: rest) }
  | _ => { l with queue := l.queue.erase l.taken, taken := l.taken + 1 }

/-- Passes characters, none of which is a break. -/
def skip (l : Lexer) (n : Nat) : Lexer := { l with source := l.source.skipMany n }

/-- Appends a token of one character or more, and passes it. -/
def mark (l : Lexer) (shape : Shape) (width : Nat) : Lexer := (l.push shape).skip width

/-! ## Blocks -/

/-- Opens a block at a column that is further in, before a token; none when there are too many. -/
def openBlock (l : Lexer) (column number : Nat) (t : Token) : Option Lexer :=
  if l.flow = 0 && l.indent < column then
    if maxDepth ≤ l.blocks then none
    else
      let inner : Lexer := { l with outer := l.indent :: l.outer, indent := column, blocks := l.blocks + 1 }
      some (inner.insert number t)
  else some l

/-- Opens a block here, if this column is further in. -/
def openHere (l : Lexer) (shape : Shape) : Option Lexer :=
  l.openBlock l.source.mark.column l.made ⟨shape, l.source.mark.line⟩

/-- Closes the blocks that are further in than a column. -/
def closeBlocksTo (column : Int) (l : Lexer) : List Int → Lexer
  | [] => l
  | i :: outer =>
    if l.indent > column then
      closeBlocksTo column { l.push .blockEnd with indent := i, outer, blocks := l.blocks - 1 } outer
    else l

/-- Closes the blocks that are further in than a column; brackets keep them open. -/
def closeBlocks (l : Lexer) (column : Int) : Lexer :=
  if l.flow = 0 then closeBlocksTo column l l.outer else l

/-! ## Possible keys -/

/-- The innermost key place. -/
def key (l : Lexer) : KeyPlace := l.keys.head?.getD {}

/-- Changes the innermost key place. -/
def setKey (l : Lexer) (k : KeyPlace) : Lexer := { l with keys := k :: l.keys.tail }

/-- No longer lets a token wait. -/
def release (l : Lexer) (number : Nat) : Lexer := { l with waiting := l.waiting.erase number }

/-- Forgets the innermost possible key; none when it had to be a key. -/
def dropKey (l : Lexer) : Option Lexer :=
  let k := l.key
  if !k.isPossible then some l
  else if k.isRequired then none
  else some ((l.setKey { k with isPossible := false }).release k.number)

/-- Remembers that a key may start here. -/
def saveKey (l : Lexer) : Option Lexer :=
  if !l.keyAllowed then some l
  else
    let k : KeyPlace :=
      { isPossible := true
        isRequired := l.flow = 0 && l.indent = l.source.mark.column
        number := l.made
        mark := l.source.mark }
    match l.dropKey with
    | none => none
    | some l' => some { l'.setKey k with waiting := l'.waiting.insert k.number k }

/-! ## Single tokens -/

/-- A line that starts or ends a document. -/
def documentMark (l : Lexer) (shape : Shape) : Option Lexer := do
  let l ← (l.closeBlocks (-1)).dropKey
  some (({ l with keyAllowed := false } : Lexer).mark shape 3)

/-- A directive. -/
def directive (l : Lexer) : Option Lexer := do
  let l ← (l.closeBlocks (-1)).dropKey
  let (d, source) ← Yaml.directive l.source.skip
  some { l.push (.directive d) with source, keyAllowed := false }

/-- An opening bracket. -/
def openFlow (l : Lexer) (shape : Shape) : Option Lexer := do
  let l ← l.saveKey
  if maxDepth ≤ l.flow then none
  let place : KeyPlace := { number := l.made }
  some (({ l with keys := place :: l.keys, flow := l.flow + 1, keyAllowed := true } : Lexer).mark shape 1)

/-- Leaves the innermost bracket. The token of a bracket with nothing in it does not wait longer. -/
def leaveFlow (l : Lexer) : Lexer :=
  if l.flow = 0 then l
  else { l.release l.key.number with flow := l.flow - 1, keys := l.keys.tail }

/-- A closing bracket. -/
def closeFlow (l : Lexer) (shape : Shape) : Option Lexer := do
  let l ← l.dropKey
  some (({ l.leaveFlow with keyAllowed := false } : Lexer).mark shape 1)

/-- A comma between brackets. -/
def flowEntry (l : Lexer) : Option Lexer := do
  let l ← l.dropKey
  some (({ l with keyAllowed := true } : Lexer).mark .flowEntry 1)

/-- The dash of an item, which opens a sequence where it may start one. -/
def blockEntry (l : Lexer) : Option Lexer := do
  if l.flow = 0 && !l.keyAllowed then none
  let l ← l.openHere .blockSequence
  let l ← l.dropKey
  some (({ l with keyAllowed := true } : Lexer).mark .blockEntry 1)

/-- The question mark of a key. -/
def explicitKey (l : Lexer) : Option Lexer := do
  if l.flow = 0 && !l.keyAllowed then none
  let l ← l.openHere .blockMapping
  let l ← l.dropKey
  some (({ l with keyAllowed := l.flow = 0 } : Lexer).mark .key 1)

/-- The colon before a value. A possible key on the same line becomes a key, and opens a mapping if
it is the first one of its block. -/
def value (l : Lexer) : Option Lexer := do
  let k := l.key
  let valid ← if k.isPossible then k.canCome l.source.mark else some false
  if valid then
    let l := l.insert k.number ⟨.key, k.mark.line⟩
    let l ← l.openBlock k.mark.column k.number ⟨.blockMapping, k.mark.line⟩
    let l := (l.setKey { k with isPossible := false }).release k.number
    some (({ l with keyAllowed := false } : Lexer).mark .value 1)
  else
    if l.flow = 0 && !l.keyAllowed then none
    let l ← l.openHere .blockMapping
    some (({ l with keyAllowed := l.flow = 0 } : Lexer).mark .value 1)

/-- An alias or an anchor. -/
def anchor (l : Lexer) (shape : Bytes → Shape) : Option Lexer := do
  let l ← l.saveKey
  let (name, source) ← anchorName l.source.skip
  some { l.push (shape name) with source, keyAllowed := false }

/-- A tag. -/
def tag (l : Lexer) : Option Lexer := do
  let l ← l.saveKey
  let (handle, suffix, source) ← tagName l.source
  some { l.push (.tag handle suffix) with source, keyAllowed := false }

/-- A block scalar. -/
def blockScalar (l : Lexer) (folded : Bool) : Option Lexer := do
  let l ← l.dropKey
  let (text, source) ← Block.read folded l.indent l.source.skip
  some { l.push (.scalar (bytesOf text) false) with source, keyAllowed := true }

/-- A quoted scalar. -/
def quotedScalar (l : Lexer) (single : Bool) : Option Lexer := do
  let l ← l.saveKey
  let s ← l.source.skip.ensure 4
  let (text, source) ← quoted single [] .word s s.rest
  some { l.push (.scalar (bytesOf text) false) with source, keyAllowed := false }

/-- A plain scalar. After a break a key may start. -/
def plainScalar (l : Lexer) : Option Lexer := do
  let l ← l.saveKey
  let p ← plain (0 < l.flow) (l.indent + 1) [] none l.source l.source.rest
  some { l.push (.scalar (bytesOf p.text) true) with source := p.source, keyAllowed := p.newline }

/-- The end of the text. -/
def finish (l : Lexer) : Option Lexer := do
  let m := l.source.mark
  let here : Mark := if m.column = 0 then m else ⟨m.line + 1, 0, m.index⟩
  let l ← (({ l with source := { l.source with mark := here } } : Lexer).closeBlocks (-1)).dropKey
  some { l.push .streamEnd with keyAllowed := false, ended := true }

/-! ## The next token -/

/-- Passes blanks and a comment of one line, and its break. Gives whether there was one. Tabs count
as blanks inside brackets and where no key may start. -/
def skipLine (tabs : Bool) (s : Source) : Option (Bool × Source) := do
  let s ← s.ensure 1
  let s := if s.mark.column = 0 && s.marked then s.skip else s
  let s ← s.skipWhile fun c => c = ' ' || (tabs && c = '\t')
  let s ← s.skipComment
  if s.atBreak then
    let s ← s.ensure 2
    some (true, s.skipBreak)
  else some (false, s)

/-- Goes to the next token over at most `n` lines. A key may start on a new line of a block. -/
def toToken : Nat → Lexer → Option Lexer
  | 0, _ => none
  | n + 1, l =>
    match skipLine (0 < l.flow || !l.keyAllowed) l.source with
    | none => none
    | some (true, source) => toToken n { l with source, keyAllowed := l.keyAllowed || l.flow = 0 }
    | some (false, source) => some { l with source }

/-- A character that stands for something else than a plain scalar. -/
def isIndicator (c : Char) : Bool :=
  ['-', '?', ':', ',', '[', ']', '\x7b', '\x7d', '#', '&', '*', '!', '|', '>', '\'', '"', '%', '@',
    '\x60'].contains c

/-- Whether a plain scalar starts with this character. -/
def startsPlain (flow : Bool) (c : Char) (rest : List Char) : Bool :=
  (!isBlank c && !isBreak c && !isIndicator c) || (c = '-' && !(rest.head?.any isBlank)) ||
    (!flow && (c = '?' || c = ':') && !endsWord rest)

/-- The token that starts here. -/
def token (l : Lexer) : Option Lexer :=
  match l.source.rest with
  | [] => l.finish
  | c :: rest =>
    let flow : Bool := 0 < l.flow
    if l.source.mark.column = 0 && c = '%' then l.directive
    else if l.source.atDocumentMark then l.documentMark (if c = '-' then .documentStart else .documentEnd)
    else if c = '[' then l.openFlow .flowSequence
    else if c = '\x7b' then l.openFlow .flowMapping
    else if c = ']' then l.closeFlow .flowSequenceEnd
    else if c = '\x7d' then l.closeFlow .flowMappingEnd
    else if c = ',' then l.flowEntry
    else if c = '-' && endsWord rest then l.blockEntry
    else if c = '?' && (flow || endsWord rest) then l.explicitKey
    else if c = ':' && (flow || endsWord rest) then l.value
    else if c = '*' then l.anchor .alias
    else if c = '&' then l.anchor .anchor
    else if c = '!' then l.tag
    else if c = '|' && !flow then l.blockScalar false
    else if c = '>' && !flow then l.blockScalar true
    else if c = '\'' then l.quotedScalar true
    else if c = '"' then l.quotedScalar false
    else if startsPlain flow c rest then l.plainScalar
    else none

/-- Makes the next token. -/
def fetch (l : Lexer) : Option Lexer := do
  let l ← l.toToken (l.source.left + 1)
  let l := l.closeBlocks l.source.mark.column
  let source ← l.source.ensure 4
  ({ l with source } : Lexer).token

/-- Makes tokens until the first one of the queue does not have to wait; at most `n` are made. -/
def settle : Nat → Lexer → Option Lexer
  | 0, _ => none
  | n + 1, l =>
    match l.head?, l.waiting[l.taken]? with
    | none, _ => if l.ended then none else l.fetch.bind (settle n)
    | some _, none => some l
    | some _, some k =>
      match k.canCome l.source.mark with
      | none => none
      | some waits => if waits && !l.ended then l.fetch.bind (settle n) else some l

/-- The first token, which is then at the front of the queue. -/
def peek (l : Lexer) : Option (Token × Lexer) := do
  let l ← settle (l.source.left + 2) l
  let t ← l.head?
  some (t, l)

end Lexer

end CounterLedger.Yaml
