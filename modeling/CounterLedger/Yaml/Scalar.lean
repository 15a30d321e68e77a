/-
Scalars of YAML within a line of thought: plain ones, which end where the context says, and quoted
ones. Such a scalar may go on over several lines, whose breaks are folded: one break becomes a space,
and of more breaks the first is dropped.
-/
import CounterLedger.Text.Numeral
import CounterLedger.Yaml.Source

namespace CounterLedger.Yaml

/-! ## Gaps -/

/-- The white space between two words, to be joined when the next word comes. -/
inductive Gap where
  /-- Blanks on the same line, in reverse. -/
  | blanks (s : List Char)
  /-- A break followed by some more breaks, those in reverse. -/
  | lines (first : Char) (more : List Char)
  /-- An escaped break followed by some more breaks, those in reverse. -/
  | escaped (more : List Char)

namespace Gap

/-- The characters that a gap leaves in the text, in reverse. Only a line feed is folded. -/
def joined : Gap → List Char
  | .blanks s => s
  | .lines first more =>
    if first = '\n' then (if more.isEmpty then [' '] else more) else more ++ [first]
  | .escaped more => more

/-- Whether the gap goes over a break. -/
def hasBreak : Gap → Bool
  | .blanks _ => false
  | _ => true

/-- The gap after one more blank. -/
def addBlank (c : Char) : Gap → Gap
  | .blanks s => .blanks (c :: s)
  | g => g

/-- The gap after one more break. -/
def addBreak (c : Char) : Gap → Gap
  | .blanks _ => .lines c []
  | .lines first more => .lines first (c :: more)
  | .escaped more => .escaped (c :: more)

end Gap

/-- Passes a break that comes next and makes the character after it ready. -/
def Source.crossBreak (s : Source) : Option Source := do
  let s ← s.ensure 2
  s.skipBreak.ensure 1

/-! ## Plain scalars -/

/-- A plain scalar that has been read. -/
structure Plain where
  text : List Char
  source : Source
  /-- Whether breaks have been passed after the last character. -/
  newline : Bool

/-- A character that ends a plain scalar inside brackets. -/
def isFlowMark (c : Char) : Bool :=
  c = ',' || c = '?' || c = '[' || c = ']' || c = '\x7b' || c = '\x7d'

/-- Whether a plain scalar ends before this text, within a word. -/
def endsPlain (flow : Bool) (c : Char) (rest : List Char) : Bool :=
  (c = ':' && endsWord rest) || (flow && isFlowMark c)

/-- Goes from a gap to the next word of a plain scalar: none when the text cannot be read, and no
source when the scalar ends with the gap. -/
def plainWord (flow : Bool) (indent : Int) (s : Source) : Option (Option Source) :=
  if !flow && (s.mark.column : Int) < indent then some none
  else match s.ensure 4 with
    | none => none
    | some s' => if s'.atDocumentMark || s'.startsWith '#' then some none else some (some s')

/-- Reads a plain scalar. The text so far is given in reverse, with the gap after it unless the last
character belongs to a word. None when a tab stands for indentation. -/
def plain (flow : Bool) (indent : Int) (acc : List Char) (gap : Option Gap) (s : Source) :
    List Char → Option Plain
  | [] =>
    match gap with
    | none => some ⟨acc.reverse, s, false⟩
    | some g => (plainWord flow indent s).map fun _ => ⟨acc.reverse, s, g.hasBreak⟩
  | '\r' :: '\n' :: rest =>
    match s.crossBreak with
    | some s' => plain flow indent acc (some ((gap.getD (.blanks [])).addBreak '\n')) s' rest
    | none => none
  | c :: rest =>
    let g := gap.getD (.blanks [])
    if isBreak c then
      match s.crossBreak with
      | some s' => plain flow indent acc (some (g.addBreak (breakChar c))) s' rest
      | none => none
    else if isBlank c then
      if g.hasBreak && (s.mark.column : Int) < indent && c = '\t' then none
      else match s.skip.ensure 1 with
        | some s' => plain flow indent acc (some (g.addBlank c)) s' rest
        | none => none
    else
      match (if gap.isSome then plainWord flow indent s else some (some s)) with
      | none => none
      | some none => some ⟨acc.reverse, s, g.hasBreak⟩
      | some (some s₁) =>
        if endsPlain flow c rest then some ⟨acc.reverse, s₁, g.hasBreak⟩
        else match s₁.skip.ensure 2 with
          | some s₂ => plain flow indent (c :: (g.joined ++ acc)) none s₂ rest
          | none => none

/-! ## Quoted scalars -/

/-- What a short escape stands for. -/
def escape? (c : Char) : Option Char :=
  match c with
  | '0' => some '\x00'
  | 'a' => some '\x07'
  | 'b' => some '\x08'
  | 't' => some '\t'
  | '\t' => some '\t'
  | 'n' => some '\n'
  | 'v' => some '\x0b'
  | 'f' => some '\x0c'
  | 'r' => some '\r'
  | 'e' => some '\x1b'
  | ' ' => some ' '
  | '"' => some '"'
  | '\'' => some '\''
  | '\\' => some '\\'
  | 'N' => some '\u0085'
  | '_' => some '\u00a0'
  | 'L' => some '\u2028'
  | 'P' => some '\u2029'
  | _ => none

/-- How many digits follow the letter of a numeric escape. -/
def escapeWidth (c : Char) : Nat :=
  if c = 'x' then 2 else if c = 'u' then 4 else if c = 'U' then 8 else 0

/-- The value of a hexadecimal digit. -/
def hexDigit? (c : Char) : Option Nat :=
  if c.toNat < 128 then (Numeral.digitValue (UInt8.ofNat c.toNat)).filter (· < 16) else none

/-- The character of a code point, unless it is a surrogate or too large. -/
def charOf? (n : Nat) : Option Char :=
  if n < 0xd800 || (0xe000 ≤ n && n ≤ 0x10ffff) then some (Char.ofNat n) else none

/-- Where the reading of a quoted scalar is. -/
inductive Within where
  | word
  | gap (g : Gap)
  /-- In the digits of a numeric escape, of which some are left. -/
  | code (left value : Nat)

/-- The text so far, in reverse, when the next word of a quoted scalar begins. No document may start
or end there. -/
def quotedWord (acc : List Char) (s : Source) : Within → Option (List Char × Source)
  | .gap g =>
    match s.ensure 4 with
    | some s' => if s'.atDocumentMark then none else some (g.joined ++ acc, s')
    | none => none
  | _ => some (acc, s)

/-- The gap before the next break or blank, unless that stands among the digits of an escape. -/
def Within.gap? : Within → Option Gap
  | .word => some (.blanks [])
  | .gap g => some g
  | .code _ _ => none

/-- Reads a quoted scalar after its opening quote; `single` tells the quote. The text so far is
given in reverse. None when the text ends, a document mark comes in between, or an escape is not
known. -/
def quoted (single : Bool) (acc : List Char) (within : Within) (s : Source) :
    List Char → Option (List Char × Source)
  | [] => none
  | '\r' :: '\n' :: rest =>
    match within.gap?, s.crossBreak with
    | some g, some s' => quoted single acc (.gap (g.addBreak '\n')) s' rest
    | _, _ => none
  | c :: rest =>
    match within with
    | .code left value =>
      match hexDigit? c with
      | none => none
      | some d =>
        let n := 16 * value + d
        if 1 < left then quoted single acc (.code (left - 1) n) s.skip rest
        else match charOf? n, s.skip.ensure 2 with
          | some x, some s' => quoted single (x :: acc) .word s' rest
          | _, _ => none
    | _ =>
      let g := within.gap?.getD (.blanks [])
      if isBreak c then
        match s.crossBreak with
        | some s' => quoted single acc (.gap (g.addBreak (breakChar c))) s' rest
        | none => none
      else if isBlank c then
        match s.skip.ensure 1 with
        | some s' => quoted single acc (.gap (g.addBlank c)) s' rest
        | none => none
      else match quotedWord acc s within with
        | none => none
        | some (acc, s) =>
          if single then
            if c = '\'' then
              match rest with
              | '\'' :: rest' =>
                match s.skip.skip.ensure 2 with
                | some s' => quoted single ('\'' :: acc) .word s' rest'
                | none => none
              | _ => some (acc.reverse, s.skip)
            else match s.skip.ensure 2 with
              | some s' => quoted single (c :: acc) .word s' rest
              | none => none
          else if c = '"' then some (acc.reverse, s.skip)
          else if c = '\\' then
            match rest with
            | [] => none
            | '\r' :: '\n' :: rest' =>
              match (s.ensure 3).bind fun s => s.skip.skipBreak.ensure 1 with
              | some s' => quoted single acc (.gap (.escaped [])) s' rest'
              | none => none
            | e :: rest' =>
              if isBreak e then
                match (s.ensure 3).bind fun s => s.skip.skipBreak.ensure 1 with
                | some s' => quoted single acc (.gap (.escaped [])) s' rest'
                | none => none
              else match escape? e with
                | some x =>
                  match s.skip.skip.ensure 2 with
                  | some s' => quoted single (x :: acc) .word s' rest'
                  | none => none
                | none =>
                  let width := escapeWidth e
                  if width = 0 then none
                  else match s.skip.skip.ensure width with
                    | some s' => quoted single acc (.code width 0) s' rest'
                    | none => none
          else match s.skip.ensure 2 with
            | some s' => quoted single (c :: acc) .word s' rest
            | none => none

end CounterLedger.Yaml
