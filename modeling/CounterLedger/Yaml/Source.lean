/-
The text of a YAML file as a source of characters. The bytes are read in portions, and a portion is
only read when a character of it is asked for, so what cannot be read in a later portion does no
harm to a document that ends before it.
-/
import CounterLedger.Text.Utf8

namespace CounterLedger.Yaml

/-! ## Encodings -/

/-- How the characters of a text are written. -/
inductive Encoding where
  | utf8
  | utf16 (bigEndian : Bool)

/-- What stands at the front of some bytes. -/
inductive Front where
  | char (c : Char) (width : Nat)
  /-- The start of a character whose last bytes are missing. -/
  | short
  | bad

/-- The length that the first byte of a UTF-8 sequence announces; zero when it announces none. -/
def leadWidth (b : UInt8) : Nat :=
  if b < 0x80 then 1
  else if b < 0xc0 then 0
  else if b < 0xe0 then 2
  else if b < 0xf0 then 3
  else if b < 0xf8 then 4
  else 0

/-- Whether the character may stand in a text. -/
def isAllowed (c : Char) : Bool :=
  let n := c.toNat
  n = 9 || n = 10 || n = 13 || (0x20 ≤ n && n ≤ 0x7e) || n = 0x85 || (0xa0 ≤ n && n ≤ 0xfffd) ||
    0x10000 ≤ n

/-- A code point at the front, if it may stand in a text. -/
def Front.ofCodePoint (n width : Nat) : Front :=
  let c := Char.ofNat n
  if isAllowed c then .char c width else .bad

namespace Encoding

/-- The encoding of a text, and the length of the mark that tells it. -/
def detect : Bytes → Encoding × Nat
  | 0xff :: 0xfe :: _ => (.utf16 false, 2)
  | 0xfe :: 0xff :: _ => (.utf16 true, 2)
  | 0xef :: 0xbb :: 0xbf :: _ => (.utf8, 3)
  | _ => (.utf8, 0)

/-- The front of bytes in UTF-8. -/
def utf8Front (s : Bytes) : Front :=
  match s with
  | [] => .short
  | b :: _ =>
    let width := leadWidth b
    if width = 0 then .bad
    else
      let sequence := s.take width
      if sequence.length < width then .short
      else if Utf8.sequenceLength sequence = width then .ofCodePoint (Utf8.codePoint sequence) width
      else .bad

/-- A unit of UTF-16. -/
def unit (bigEndian : Bool) (a b : UInt8) : Nat :=
  if bigEndian then 256 * a.toNat + b.toNat else 256 * b.toNat + a.toNat

/-- The front of bytes in UTF-16. -/
def utf16Front (bigEndian : Bool) : Bytes → Front
  | a :: b :: rest =>
    let high := unit bigEndian a b
    if 0xdc00 ≤ high && high < 0xe000 then .bad
    else if 0xd800 ≤ high && high < 0xdc00 then
      match rest with
      | c :: d :: _ =>
        let low := unit bigEndian c d
        if 0xdc00 ≤ low && low < 0xe000 then
          .ofCodePoint (0x10000 + 0x400 * (high - 0xd800) + (low - 0xdc00)) 4
        else .bad
      | _ => .short
    else .ofCodePoint high 2
  | _ => .short

/-- The front of some bytes. -/
def front : Encoding → Bytes → Front
  | .utf8, s => utf8Front s
  | .utf16 bigEndian, s => utf16Front bigEndian s

/-- The characters of some bytes and the start of a character at their end, after `skip` bytes that
belong to the character before them. None when there is something else than characters. -/
def decodeFrom (e : Encoding) (acc : List Char) (skip : Nat) : Bytes → Option (List Char × Bytes)
  | [] => some (acc.reverse, [])
  | b :: rest =>
    match skip with
    | n + 1 => decodeFrom e acc n rest
    | 0 =>
      match e.front (b :: rest) with
      | .char c width => decodeFrom e (c :: acc) (width - 1) rest
      | .short => some (acc.reverse, b :: rest)
      | .bad => none

end Encoding

/-! ## Portions -/

/-- The number of bytes that are read at a time. -/
def portionSize : Nat := 512

/-- The portions of a text, and whether what follows them cannot be read. There is `room` for more
bytes in the next portion, which starts with the ones carried over; there are at most `n`. -/
def portionsOf (e : Encoding) : Nat → Nat → Bytes → Bytes → List (List Char) × Bool
  | 0, _, _, _ => ([], false)
  | n + 1, room, carried, input =>
    if input = [] then ([], carried ≠ [])
    else match e.decodeFrom [] 0 (carried ++ input.take room) with
      | none => ([], true)
      | some (cs, rest) =>
        let (later, broken) := portionsOf e n (portionSize - rest.length) rest (input.drop room)
        (cs :: later, broken)

/-! ## Places -/

/-- A place in a text, counted from zero. -/
structure Mark where
  line : Nat := 0
  column : Nat := 0
  index : Nat := 0

/-- A character that ends a line. -/
def isBreak (c : Char) : Bool :=
  c = '\n' || c = '\r' || c = '\u0085' || c = '\u2028' || c = '\u2029'

/-- A space or a tab. -/
def isBlank (c : Char) : Bool := c = ' ' || c = '\t'

/-- Whether a blank, a break or the end of the text comes next. -/
def endsWord : List Char → Bool
  | [] => true
  | c :: _ => isBlank c || isBreak c

/-- The character that a break stands for: most are a line feed. -/
def breakChar (c : Char) : Char := if c = '\u2028' || c = '\u2029' then c else '\n'

/-- The rest of a text, and how much of it has been read. -/
structure Source where
  rest : List Char
  /-- The number of characters left. -/
  left : Nat
  /-- The number of characters that are ready, with a few more at the end of the text. -/
  ready : Nat := 0
  /-- The sizes of the portions to come. -/
  portions : List Nat := []
  /-- Whether what follows the portions cannot be read. -/
  broken : Bool := false
  /-- Whether the characters at hand, when they were read, started with a byte order mark. -/
  marked : Bool := false
  mark : Mark := {}

namespace Source

/-- The source of a text. A text without bytes is an empty line. -/
def ofBytes (b : Bytes) : Source :=
  let text := if b = [] then [0x0a] else b
  let (e, width) := Encoding.detect text
  let (portions, broken) := portionsOf e (text.length + 1) (portionSize - width) [] (text.drop width)
  let rest := portions.flatten
  { rest, left := rest.length, portions := portions.map List.length, broken }

/-- Reads portions until enough characters are ready. The end of the text counts as one character. -/
def fill (needed ready : Nat) (broken : Bool) : List Nat → Option (Nat × List Nat)
  | [] => if broken then none else some (ready + 1, [])
  | size :: later =>
    if needed ≤ ready + size then some (ready + size, later) else fill needed (ready + size) broken later

/-- Makes sure that characters are ready, as far as the text goes. None when they cannot be read. -/
def ensure (s : Source) (needed : Nat) : Option Source :=
  if needed ≤ s.ready then some s
  else match fill needed s.ready s.broken s.portions with
    | none => none
    | some (ready, portions) => some { s with ready, portions, marked := s.rest.head? = some '\ufeff' }

/-- Passes a character that is no break. -/
def skip (s : Source) : Source :=
  { s with
    rest := s.rest.tail
    left := s.left - 1
    ready := s.ready - 1
    mark := { s.mark with column := s.mark.column + 1, index := s.mark.index + 1 } }

/-- Passes some characters, none of which is a break. -/
def skipMany (s : Source) : Nat → Source
  | 0 => s
  | n + 1 => s.skip.skipMany n

/-- Passes a break of so many characters. -/
def passBreak (s : Source) (width : Nat) : Source :=
  { s with
    rest := s.rest.drop width
    left := s.left - width
    ready := s.ready - width
    mark := ⟨s.mark.line + 1, 0, s.mark.index + width⟩ }

/-- Passes a break if there is one: a carriage return and a line feed are a single one. -/
def skipBreak (s : Source) : Source :=
  match s.rest with
  | '\r' :: '\n' :: _ => s.passBreak 2
  | c :: _ => if isBreak c then s.passBreak 1 else s
  | [] => s

/-- The next character is this one. -/
def startsWith (s : Source) (c : Char) : Bool := s.rest.head? = some c

/-- Whether a break comes next. -/
def atBreak (s : Source) : Bool := s.rest.head?.any isBreak

/-- Whether a break or the end of the text comes next. -/
def atLineEnd (s : Source) : Bool := s.rest.head?.all isBreak

/-- Whether a line that starts or ends a document comes next. -/
def atDocumentMark (s : Source) : Bool :=
  s.mark.column = 0 && (s.rest.take 3 = ['-', '-', '-'] || s.rest.take 3 = ['.', '.', '.']) &&
    endsWord (s.rest.drop 3)

/-- Takes characters of a class, of which the first ones are given in reverse. -/
def takeFrom (p : Char → Bool) (acc : List Char) (s : Source) : List Char → Option (List Char × Source)
  | [] => some (acc.reverse, s)
  | c :: rest =>
    if p c then
      match s.skip.ensure 1 with
      | some s' => takeFrom p (c :: acc) s' rest
      | none => none
    else some (acc.reverse, s)

/-- Takes the characters of a class that come next. There is no break in the class. -/
def takeWhile (s : Source) (p : Char → Bool) : Option (List Char × Source) := do
  let s ← s.ensure 1
  takeFrom p [] s s.rest

/-- Passes the characters of a class that come next. -/
def skipWhile (s : Source) (p : Char → Bool) : Option Source := (s.takeWhile p).map fun r => r.2

/-- Passes a comment, if one starts here. -/
def skipComment (s : Source) : Option Source :=
  if s.startsWith '#' then s.skipWhile fun c => !isBreak c else some s

/-- Passes blanks and a comment to the end of the line, and its break. None when something else
stands in the line. -/
def finishLine (s : Source) : Option Source := do
  let s ← s.skipWhile isBlank
  let s ← s.skipComment
  if s.atBreak then
    let s ← s.ensure 2
    some s.skipBreak
  else if s.rest.isEmpty then some s
  else none

end Source

end CounterLedger.Yaml
