/-
Comments of Go sources that are too long. A source is read byte by byte, so that comment marks in
literals are not taken for comments. Each line of a comment is measured in bytes, without carriage
returns; directives are exempt, and so is a generated file.
-/
import CounterLedger.Text.Numeral

namespace CounterLedger.CommentLength

/-- A place in a source, counted from one; columns count bytes. -/
structure Place where
  line : Nat
  column : Nat
deriving DecidableEq

/-- A comment and where it starts. -/
structure Comment where
  place : Place
  text : Bytes
deriving DecidableEq

/-- What the bytes read so far leave open. The text of an open comment is kept in reverse. -/
inductive Mode where
  | code
  /-- A slash that may start a comment. -/
  | slash (start : Place)
  | lineComment (start : Place) (text : Bytes)
  /-- A general comment, and whether its last byte is a star that may end it. -/
  | blockComment (start : Place) (text : Bytes) (star : Bool)
  /-- A literal that ends with the given quote, and whether its last byte is an open escape. -/
  | quoted (quote : UInt8) (escaped : Bool)
  | raw

/-- The mode after a byte of code. -/
def Mode.ofCode (p : Place) (b : UInt8) : Mode :=
  if b = 0x2f then .slash p
  else if b = 0x22 || b = 0x27 then .quoted b false
  else if b = 0x60 then .raw
  else .code

/-- The mode after one more byte, and the comment that it ends. -/
def Mode.next (p : Place) (b : UInt8) : Mode → Mode × Option Comment
  | .code => (Mode.ofCode p b, none)
  | .slash start =>
    if b = 0x2f then (.lineComment start [0x2f, 0x2f], none)
    else if b = 0x2a then (.blockComment start [0x2a, 0x2f] false, none)
    else (Mode.ofCode p b, none)
  | .lineComment start text =>
    if b = 0x0a then (.code, some ⟨start, text.reverse⟩) else (.lineComment start (b :: text), none)
  | .blockComment start text star =>
    if star && b = 0x2f then (.code, some ⟨start, (b :: text).reverse⟩)
    else (.blockComment start (b :: text) (b = 0x2a), none)
  | .quoted quote true => (.quoted quote false, none)
  | .quoted quote false =>
    if b = 0x5c then (.quoted quote true, none)
    else if b = quote then (.code, none)
    else (.quoted quote false, none)
  | .raw => if b = 0x60 then (.code, none) else (.raw, none)

/-- The comments of the rest of a source. -/
def scan (p : Place) (mode : Mode) (acc : List Comment) : Bytes → List Comment
  | [] =>
    match mode with
    | .lineComment start text => (⟨start, text.reverse⟩ :: acc).reverse
    | _ => acc.reverse
  | b :: rest =>
    let (mode', found) := mode.next p b
    let p' := if b = 0x0a then ⟨p.line + 1, 1⟩ else ⟨p.line, p.column + 1⟩
    scan p' mode' (found.toList ++ acc) rest

/-- The comments of a source, in order. -/
def comments (source : Bytes) : List Comment := scan ⟨1, 1⟩ .code [] source

/-! ## Measuring -/

/-- Whether a general comment whose bytes so far are given in reverse would end with a slash: its last
byte is a star that is not the one of its mark. -/
def endsInStar : Bytes → Bool
  | 0x2a :: _ :: _ :: _ => true
  | _ => false

/-- The text without carriage returns. In a general comment one is kept where the comment would
otherwise end early: between a star and a slash. The result so far is given in reverse. -/
def dropReturns (general : Bool) (acc : Bytes) : Bytes → Bytes
  | [] => acc.reverse
  | b :: rest =>
    if b = 0x0d && !(general && endsInStar acc && rest.head? = some 0x2f) then
      dropReturns general acc rest
    else dropReturns general (b :: acc) rest

/-- The text of a comment as it is measured. -/
def Comment.measured (c : Comment) : Bytes := dropReturns (c.text.take 2 = utf8 "/*") [] c.text

/-- Whether a file with these comments is generated. -/
def isGenerated : List Comment → Bool
  | [] => false
  | c :: _ => (utf8 "// Code generated").isPrefixOf c.measured

/-- A line of a comment that is too long. -/
structure Report where
  file : Nat
  place : Place
  message : Bytes

/-- The wording of a report. -/
def tooLong (length : Nat) (maxLength : Int) : Bytes :=
  utf8 "comment too long (" ++ Numeral.decimal length ++ utf8 " > " ++ Numeral.signed maxLength ++ utf8 ")"

/-- The reports on one comment, one for each line that is too long and no directive. -/
def Comment.reports (c : Comment) (file : Nat) (maxLength : Int) : List Report :=
  (c.measured.splitOn 0x0a).filterMap fun line =>
    if (utf8 "//go:").isPrefixOf line then none
    else if maxLength < line.length then
      some ⟨file, c.place, tooLong line.length maxLength⟩
    else none

/-- The reports on a list of files, numbered from the given one. -/
def reportsFrom (maxLength : Int) (file : Nat) : List Bytes → List Report
  | [] => []
  | source :: rest =>
    let cs := comments source
    let here := if isGenerated cs then [] else cs.flatMap fun c => c.reports file maxLength
    here ++ reportsFrom maxLength (file + 1) rest

/-- The reports on a list of files. -/
def check (maxLength : Int) (files : List Bytes) : List Report := reportsFrom maxLength 0 files

/-- The length allowed by default. -/
def defaultMaxLength : Int := 80

end CounterLedger.CommentLength
