/-
Properties of YAML nodes and directives of documents: names of anchors, tags, which are written with
a handle or in full, and the lines that tell a version or the meaning of a handle.
-/
import CounterLedger.Yaml.Scalar

namespace CounterLedger.Yaml

/-- The bytes of some characters. -/
def bytesOf (text : List Char) : Bytes := text.flatMap String.utf8EncodeChar

/-- A character of a name. -/
def isNameChar (c : Char) : Bool := c.isAlphanum || c = '_' || c = '-'

/-! ## Anchors -/

/-- Whether an anchor may end before this text. -/
def endsAnchor (rest : List Char) : Bool :=
  endsWord rest || (rest.head?.any fun c => ['?', ':', ',', ']', '\x7d', '%', '@', '\x60'].contains c)

/-- Reads the name of an anchor after its indicator. -/
def anchorName (s : Source) : Option (Bytes × Source) := do
  let (name, s) ← s.takeWhile isNameChar
  if name.isEmpty || !endsAnchor s.rest then none
  some (bytesOf name, s)

/-! ## Tags -/

/-- A character of a URI, which needs no escape. -/
def isUriChar (c : Char) : Bool :=
  isNameChar c || [';', '/', '?', ':', '@', '&', '=', '+', '$', ',', '.', '!', '~', '*', '\'', '(', ')',
    '[', ']'].contains c

/-- The byte of an escape in a URI. -/
def uriByte? (high low : Char) : Option UInt8 :=
  match hexDigit? high, hexDigit? low with
  | some a, some b => some (UInt8.ofNat (16 * a + b))
  | _, _ => none

/-- Reads the characters of a URI. The bytes so far are given in reverse, and `more` escapes have to
follow to complete a character. -/
def uriFrom (acc : Bytes) (more : Nat) (s : Source) : List Char → Option (Bytes × Source)
  | '%' :: high :: low :: rest =>
    match s.ensure 3, uriByte? high low with
    | some s, some b =>
      let after := if more = 0 then leadWidth b else if Utf8.isContinuation b then more else 0
      match after, (s.skipMany 3).ensure 1 with
      | n + 1, some s' => uriFrom (b :: acc) n s' rest
      | _, _ => none
    | _, _ => none
  | c :: rest =>
    if c = '%' || more ≠ 0 then none
    else if isUriChar c then
      match s.skip.ensure 1 with
      | some s' => uriFrom ((String.utf8EncodeChar c).reverse ++ acc) 0 s' rest
      | none => none
    else some (acc.reverse, s)
  | [] => if more ≠ 0 then none else some (acc.reverse, s)

/-- Reads a URI after some characters of it. -/
def uri (start : Bytes) (s : Source) : Option (Bytes × Source) := do
  let s ← s.ensure 1
  uriFrom start.reverse 0 s s.rest

/-- Reads the handle of a tag: an exclamation mark, a name, and another mark if there is one. -/
def handle (s : Source) : Option (Bytes × Source) := do
  let s ← s.ensure 1
  if !s.startsWith '!' then none
  let (name, s) ← s.skip.takeWhile isNameChar
  if s.startsWith '!' then some (utf8 "!" ++ bytesOf name ++ utf8 "!", s.skip)
  else some (utf8 "!" ++ bytesOf name, s)

/-- Reads a tag: its handle, which is empty for a tag in full, and the rest of it. -/
def tagName (s : Source) : Option (Bytes × Bytes × Source) := do
  let s ← s.ensure 2
  let (h, suffix, s) ←
    if s.rest.drop 1 |>.head? |>.any (· = '<') then do
      let (full, s) ← uri [] (s.skipMany 2)
      if full.isEmpty || !s.startsWith '>' then none
      some ([], full, s.skip)
    else do
      let (h, s) ← handle s
      if 1 < h.length && h.getLast? = some 0x21 then
        let (suffix, s) ← uri [] s
        if suffix.isEmpty then none
        some (h, suffix, s)
      else
        let (suffix, s) ← uri (h.drop 1) s
        some (if suffix.isEmpty then ([], h, s) else (utf8 "!", suffix, s))
  let s ← s.ensure 1
  if endsWord s.rest then some (h, suffix, s) else none

/-! ## Directives -/

/-- A directive of a document. -/
inductive Directive where
  | version (major minor : Nat)
  /-- A handle of tags stands for the start of their names. -/
  | handle (name start : Bytes)

/-- Reads a number of a version: one or two digits. -/
def versionNumber (s : Source) : Option (Nat × Source) := do
  let (digits, s) ← s.takeWhile Char.isDigit
  if digits.isEmpty || 2 < digits.length then none
  some (Numeral.ofDigits (bytesOf digits), s)

/-- Reads what follows the name of a version directive. -/
def versionValue (s : Source) : Option (Directive × Source) := do
  let s ← s.skipWhile isBlank
  let (major, s) ← versionNumber s
  if !s.startsWith '.' then none
  let (minor, s) ← versionNumber s.skip
  some (.version major minor, s)

/-- Reads what follows the name of a tag directive. -/
def handleValue (s : Source) : Option (Directive × Source) := do
  let s ← s.skipWhile isBlank
  let (name, s) ← handle s
  if name.getLast? ≠ some 0x21 then none
  let s ← s.ensure 1
  if !(s.rest.head?.any isBlank) then none
  let s ← s.skipWhile isBlank
  let (start, s) ← uri [] s
  let s ← s.ensure 1
  if start.isEmpty || !endsWord s.rest then none
  some (.handle name start, s)

/-- Reads a directive after its percent sign, up to the next line. -/
def directive (s : Source) : Option (Directive × Source) := do
  let (name, s) ← s.takeWhile isNameChar
  if !endsWord s.rest then none
  let (d, s) ←
    if name = ['Y', 'A', 'M', 'L'] then versionValue s
    else if name = ['T', 'A', 'G'] then handleValue s
    else none
  let s ← s.finishLine
  some (d, s)

end CounterLedger.Yaml
