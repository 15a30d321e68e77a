/-
Block scalars of YAML: the indented lines below an indicator, kept as they are or folded. The
indentation is told by a digit or found from the first lines, and the breaks at the end are dropped,
reduced to one or kept.
-/
import CounterLedger.Yaml.Scalar

namespace CounterLedger.Yaml

/-- What becomes of the breaks at the end of a block scalar. -/
inductive Chomp where
  | strip
  | clip
  | keep
deriving DecidableEq

namespace Block

/-- What an indicator of a block scalar says: the chomping, and an indentation or zero. -/
structure Header where
  chomp : Chomp := .clip
  increment : Nat := 0

/-- Reads a sign of chomping, if there is one. -/
def chomp (s : Source) : Option Chomp × Source :=
  if s.startsWith '+' then (some .keep, s.skip)
  else if s.startsWith '-' then (some .strip, s.skip)
  else (none, s)

/-- Reads a digit of indentation, if there is one. It may not be zero. -/
def increment (s : Source) : Option (Nat × Source) :=
  match s.rest with
  | c :: _ =>
    if c = '0' then none
    else if c.isDigit then some (c.toNat - 48, s.skip)
    else some (0, s)
  | [] => some (0, s)

/-- Reads what follows an indicator of a block scalar up to the next line: a sign of chomping and a
digit of indentation in any order. -/
def header (s : Source) : Option (Header × Source) := do
  let s ← s.ensure 1
  match chomp s with
  | (some chomp, s) =>
    let s ← s.ensure 1
    let (increment, s) ← increment s
    let s ← s.finishLine
    some ({ chomp, increment }, s)
  | (none, s) =>
    let (increment, s) ← increment s
    let s ← s.ensure 1
    let (sign, s) := if increment = 0 then (none, s) else chomp s
    let s ← s.finishLine
    some ({ chomp := sign.getD .clip, increment }, s)

/-- Whether a column is before the indentation, which may not be known yet. -/
def isBefore (indent column : Nat) : Bool := indent = 0 || column < indent

/-- Passes indentation and empty lines. Gives their breaks, which are collected in reverse, and the
deepest column reached. None when a tab stands for indentation. -/
def emptyLines (indent deepest : Nat) (breaks : List Char) (s : Source) :
    List Char → Option (List Char × Nat × Source)
  | [] => some (breaks, max deepest s.mark.column, s)
  | '\r' :: '\n' :: rest =>
    match s.crossBreak with
    | some s' => emptyLines indent (max deepest s.mark.column) ('\n' :: breaks) s' rest
    | none => none
  | c :: rest =>
    let before := isBefore indent s.mark.column
    if c = ' ' && before then
      match s.skip.ensure 1 with
      | some s' => emptyLines indent deepest breaks s' rest
      | none => none
    else if c = '\t' && before then none
    else if isBreak c then
      match s.crossBreak with
      | some s' => emptyLines indent (max deepest s.mark.column) (breakChar c :: breaks) s' rest
      | none => none
    else some (breaks, max deepest s.mark.column, s)

/-- Passes indentation and empty lines: their breaks in reverse, and the deepest column. -/
def skipEmpty (indent : Nat) (s : Source) : Option (List Char × Nat × Source) := do
  let s ← s.ensure 1
  emptyLines indent 0 [] s s.rest

/-- The lines of a block scalar so far: the text and the breaks after it, in reverse. -/
structure Lines where
  text : List Char := []
  /-- The break of the last line. -/
  last : Option Char := none
  /-- The breaks of the empty lines after it. -/
  empty : List Char := []
  /-- Whether the last line starts with a blank. -/
  blank : Bool := false

/-- The text with the breaks before a line that starts with a blank or not. A single line feed is
folded between lines that start with none. -/
def Lines.joined (folded : Bool) (blank : Bool) (l : Lines) : List Char :=
  if folded && !l.blank && !blank && l.last = some '\n' then
    l.empty ++ (if l.empty.isEmpty then ' ' :: l.text else l.text)
  else l.empty ++ (l.last.toList ++ l.text)

/-- The text at the end of a block scalar, in reverse. -/
def Lines.finished (chomp : Chomp) (l : Lines) : List Char :=
  match chomp with
  | .strip => l.text
  | .clip => l.last.toList ++ l.text
  | .keep => l.empty ++ (l.last.toList ++ l.text)

/-- Reads a break, if there is one. -/
def break? (s : Source) : Option (Option Char × Source) := do
  let s ← s.ensure 2
  match s.rest with
  | c :: _ => some (if isBreak c then some (breakChar c) else none, s.skipBreak)
  | [] => some (none, s)

/-- Reads the lines at the indentation, of which there are at most `n`. -/
def lines (folded : Bool) (indent : Nat) : Nat → Lines → Source → Option (Lines × Source)
  | 0, l, s => some (l, s)
  | n + 1, l, s =>
    if s.mark.column = indent && !s.rest.isEmpty then do
      let blank := s.rest.head?.any isBlank
      let (line, s) ← s.takeWhile fun c => !isBreak c
      let (last, s) ← break? s
      let (empty, _, s) ← skipEmpty indent s
      lines folded indent n { text := line.reverse ++ l.joined folded blank, last, empty, blank } s
    else some (l, s)

/-- Reads a block scalar after its indicator, inside a block at a column. -/
def read (folded : Bool) (outer : Int) (s : Source) : Option (List Char × Source) := do
  let (h, s) ← header s
  let told : Nat := if h.increment = 0 then 0 else (max outer 0).toNat + h.increment
  let (empty, deepest, s) ← skipEmpty told s
  let indent := if told = 0 then max deepest (max (outer + 1) 1).toNat else told
  let s ← s.ensure 1
  let (l, s) ← lines folded indent s.left { empty } s
  some ((l.finished h.chomp).reverse, s)

end Block

end CounterLedger.Yaml
