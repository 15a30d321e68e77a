/-
Small contracts to exercise the service and the host: one that keeps its last message, one that
always fails, one that adds, one that shows its environment, one that does nothing, and one whose
message is a script of storage operations.
-/
import CounterLedger.Contract
import CounterLedger.Text.Numeral

namespace CounterLedger.Sample

/-- The contract whose two state-changing entry points are the same. -/
def uniform (change : Env → Address → Payload → Program Response)
    (query : Env → Payload → Reading Payload) : Contract where
  instantiate := change
  execute := change
  query := query

/-- Keeps the last message and sends it back. -/
def echo : Contract :=
  uniform
    (fun _ _ msg => do
      .write (utf8 "last") msg
      pure (({ data := msg } : Response).addAttribute (utf8 "msg") (msg.getD [])))
    (fun _ _ => .read (utf8 "last"))

/-- Writes and then fails; its query fails too. -/
def bad : Contract :=
  uniform
    (fun _ _ msg => do
      .write (utf8 "last") msg
      .fail (.ofKind .injected))
    (fun _ _ => .fail (.ofKind .injected))

/-- The word in the first eight bytes, least significant first; none when there are fewer. -/
def firstWord (s : Bytes) : Option Nat :=
  if s.length < 8 then none else some (Bytes.ofLittleEndian (s.take 8))

/-- Keeps a word of eight bytes to which messages are added, modulo 2^64. -/
def adder : Contract where
  instantiate _ _ _ := do
    .write (utf8 "counter") (some (Bytes.littleEndian 8 0))
    pure {}
  execute _ _ msg := do
    let old ← Reading.read (utf8 "counter")
    match firstWord (old.getD []), firstWord (msg.getD []) with
    | some n, some m => do
      .write (utf8 "counter") (some (Bytes.littleEndian 8 (n + m)))
      pure {}
    | _, _ => .abort none
  query _ _ := .read (utf8 "counter")

/-- Shows the environment of each invocation. -/
def environment : Contract :=
  uniform
    (fun env sender _ =>
      pure ((((({} : Response).addAttribute (utf8 "chain") env.chain).addAttribute
        (utf8 "height") (Numeral.decimal env.height.toNat)).addAttribute
        (utf8 "time") (Numeral.signed env.time)).addAttribute
        (utf8 "sender") sender.bytes))
    (fun env _ =>
      pure (some (Bytes.join (utf8 "|")
        [env.chain, Numeral.decimal env.height.toNat, Numeral.signed env.time])))

/-- Does nothing. -/
def noop : Contract := uniform (fun _ _ _ => pure {}) (fun _ _ => pure none)

/-! ## Scripts -/

/-- One line of a script. -/
inductive Line where
  | set (key value : Bytes)
  | delete (key : Bytes)
  | get (key : Bytes)
  | fail
  | abort
  /-- A line that means nothing. -/
  | other

/-- Cuts at the first separator. -/
def cut (sep : UInt8) (s : Bytes) : Bytes × Option Bytes :=
  match s.dropWhile (· ≠ sep) with
  | [] => (s, none)
  | _ :: rest => (s.takeWhile (· ≠ sep), some rest)

/-- The meaning of a line: a word, a key and a value, separated by single spaces. -/
def Line.parse (s : Bytes) : Line :=
  let (word, args) := cut 0x20 s
  let (key, value) := cut 0x20 (args.getD [])
  if word = utf8 "fail" then .fail
  else if word = utf8 "panic" then .abort
  else if args.isNone then .other
  else if word = utf8 "del" then .delete key
  else if word = utf8 "get" then .get key
  else if word = utf8 "set" then
    match value with
    | some v => .set key v
    | none => .other
  else .other

/-- Runs the lines one after the other, up to the first that fails. The attributes so far are given
in reverse. -/
def runLines (found : List (Bytes × Bytes)) : List Bytes → Program Response
  | [] => pure { attributes := found.reverse }
  | line :: lines =>
    match Line.parse line with
    | .set key value => do
      .write key (some value)
      runLines found lines
    | .delete key => do
      .erase key
      runLines found lines
    | .get key => do
      let v ← Reading.read key
      runLines ((key, v.getD (utf8 "<nil>")) :: found) lines
    | .fail => .fail (.fault (.custom (utf8 "script failed")))
    | .abort => .abort (some (utf8 "script panic"))
    | .other => runLines found lines

/-- Runs its message as a script; its query reads the key in the message. -/
def script : Contract :=
  uniform (fun _ _ msg => runLines [] ((msg.getD []).splitOn 0x0a)) (fun _ msg => .read (msg.getD []))

end CounterLedger.Sample
