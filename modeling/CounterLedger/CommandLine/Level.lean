/-
Levels of a command line: the flags of one command with the values they have been given. Flags stand
in front of the first argument that is none; two dashes end them.
-/
import CounterLedger.CommandLine.Flag
import CounterLedger.Text.Blank

namespace CounterLedger.CommandLine

/-- A flag of a level with its value. -/
structure Slot where
  name : Bytes
  value : Value
  /-- Whether the value comes from the arguments. -/
  given : Bool := false
deriving DecidableEq

/-- The flags of one command. -/
abbrev Level := List Slot

/-- The names of the flag and of the command that show help. -/
def helpNames : List Bytes := [utf8 "help", utf8 "h"]

/-! ## Arguments -/

/-- How an argument reads where flags may stand. -/
inductive Argument where
  /-- The first argument that is no flag. -/
  | word
  /-- Two dashes. -/
  | separator
  | malformed
  | flag (name : Bytes) (value : Option Bytes)
deriving DecidableEq

namespace Argument

/-- Splits a flag at its first equals sign, which cannot be its first character. -/
def ofBody : Bytes → Argument
  | [] => .malformed
  | b :: rest =>
    if b = 0x2d || b = 0x3d then .malformed
    else
      let name := b :: rest.takeWhile (· ≠ 0x3d)
      match rest.dropWhile (· ≠ 0x3d) with
      | [] => .flag name none
      | _ :: value => .flag name (some value)

/-- Reads an argument. One dash and two mean the same. -/
def ofBytes : Bytes → Argument
  | [0x2d, 0x2d] => .separator
  | 0x2d :: 0x2d :: body => ofBody body
  | 0x2d :: b :: rest => ofBody (b :: rest)
  | _ => .word

end Argument

namespace Level

/-- The flag of a name. -/
def find? (l : Level) (name : Bytes) : Option Slot := List.find? (fun s => s.name = name) l

/-- Gives a flag its value; the last one given counts. -/
def give (l : Level) (name : Bytes) (v : Value) : Level :=
  l.map fun s => if s.name = name then { s with value := v, given := true } else s

/-- Gives a flag the value that an argument spells. -/
def giveText (l : Level) (s : Slot) (value : Bytes) : Except Misuse Level :=
  match s.value.read value with
  | .ok v => .ok (l.give s.name v)
  | .error why =>
    .error (if s.value.isSwitch then .invalidSwitch value s.name else .invalidValue value s.name why)

/-- Reads the flags at the front of the arguments. The level is returned as far as it was read. -/
def parse (l : Level) : List Bytes → Level × Except Misuse (List Bytes)
  | [] => (l, .ok [])
  | a :: rest =>
    match Argument.ofBytes a with
    | .word => (l, .ok (a :: rest))
    | .separator => (l, .ok rest)
    | .malformed => (l, .error (.badSyntax a))
    | .flag name value =>
      match l.find? name with
      | none => (l, .error (if helpNames.contains name then .helpRequested else .undefined name))
      | some s =>
        match value with
        | some v =>
          match l.giveText s v with
          | .ok l' => parse l' rest
          | .error e => (l, .error e)
        | none =>
          if s.value.isSwitch then parse (l.give name (.bool true)) rest
          else match rest with
            | [] => (l, .error (.needsArgument name))
            | v :: rest' =>
              match l.giveText s v with
              | .ok l' => parse l' rest'
              | .error e => (l, .error e)

/-- Lets the two names of the help flag share their value; only one of them may be given. -/
def joinHelp (l : Level) : Except Misuse Level :=
  match helpNames.filter fun n => (l.find? n).any (·.given) with
  | [] => .ok l
  | [name] =>
    match l.find? name with
    | some s => .ok (helpNames.foldl (fun l n => l.give n s.value) l)
    | none => .ok l
  | first :: second :: _ => .error (.twoForms second first)

/-! ## Declaration -/

/-- Why a flag cannot be added to a level of some title. -/
def objection? (title : Bytes) (l : Level) (name : Bytes) : Option Bytes :=
  if name.head? = some 0x2d then some (utf8 "flag " ++ Quoted.quote name ++ utf8 " begins with -")
  else if name.contains 0x3d then some (utf8 "flag " ++ Quoted.quote name ++ utf8 " contains =")
  else if (l.find? name).isSome then
    some ((if title = [] then [] else title ++ utf8 " ") ++ utf8 "flag redefined: " ++ name)
  else none

/-- Adds flags to a level; none of them may be there already. -/
def add (title : Bytes) (l : Level) : List Slot → Except Bytes Level
  | [] => .ok l
  | s :: rest =>
    match objection? title l s.name with
    | some why => .error why
    | none => add title (l ++ [s]) rest

/-- The level of declared flags, and of the help flag if it has one. -/
def declare (title : Bytes) (flags : List Flag) (help : Bool) : Except Bytes Level :=
  add title []
    (flags.map (fun f => ⟨f.key, f.value, false⟩) ++
      if help then helpNames.map fun n => ⟨n, .bool false, false⟩ else [])

end Level

/-! ## Flags as an action sees them -/

/-- The levels around an action, innermost first. -/
abbrev Flags := List Level

namespace Flags

/-- The flag of a name at the nearest level that has it. -/
def find? (fs : Flags) (name : Bytes) : Option Slot := fs.findSome? fun l => l.find? name

/-- The text of a flag, which is empty for an unknown one. -/
def string (fs : Flags) (name : Bytes) : Bytes :=
  match fs.find? name with
  | some s => s.value.text
  | none => []

/-- The text of a flag read as an integer, or zero. -/
def int (fs : Flags) (name : Bytes) : Int :=
  match Numeral.integer (fs.string name) with
  | .ok n => n
  | .error _ => 0

/-- The text of a flag read as a word, or zero. -/
def word (fs : Flags) (name : Bytes) : UInt64 :=
  match Numeral.unsigned (fs.string name) with
  | .ok n => UInt64.ofNat n
  | .error _ => 0

/-- The text of a flag read as a truth value, or false. -/
def bool (fs : Flags) (name : Bytes) : Bool := (Numeral.truth? (fs.string name)).getD false

/-- Whether a flag was given at the nearest level that has it. -/
def isSet (fs : Flags) (name : Bytes) : Bool := (fs.find? name).any (·.given)

/-- Whether help is asked for. -/
def wantsHelp (fs : Flags) : Bool := helpNames.any fs.bool

/-- The required flags that have not been given. Names of one byte are not enforced. -/
def missing (fs : Flags) (flags : List Flag) : List Bytes :=
  (flags.filter fun f => f.required && 1 < f.key.length && !fs.isSet (Blank.trim f.key)).map Flag.key

end Flags

end CounterLedger.CommandLine
