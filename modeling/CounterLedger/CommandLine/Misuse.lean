/-
Misuse of a command line: the ways in which arguments are refused before any action is performed.
-/
import CounterLedger.Text.Numeral
import CounterLedger.Text.Quoted

namespace CounterLedger.CommandLine

/-- Why arguments are refused. -/
inductive Misuse where
  /-- A flag without a name. -/
  | badSyntax (argument : Bytes)
  | undefined (name : Bytes)
  /-- Help was asked for where no flag for it is declared. -/
  | helpRequested
  | needsArgument (name : Bytes)
  | invalidValue (value name : Bytes) (why : Numeral.Refusal)
  | invalidSwitch (value name : Bytes)
  /-- Both names of one flag were given. -/
  | twoForms (second first : Bytes)
  /-- Required flags were not given. -/
  | missing (names : List Bytes)
  /-- An argument names no command. -/
  | noTopic (name : Bytes)
deriving DecidableEq

/-- The wording of a refused number. -/
def refusalMessage : Numeral.Refusal → Bytes
  | .malformed => utf8 "parse error"
  | .range => utf8 "value out of range"

/-- The wording of missing flags: one is named alone. -/
def missingMessage (names : List Bytes) : Bytes :=
  (match names with
    | [_] => utf8 "Required flag "
    | _ => utf8 "Required flags ") ++
    Quoted.quote (Bytes.join (utf8 ", ") names) ++ utf8 " not set"

namespace Misuse

/-- The wording of a misuse. -/
def message : Misuse → Bytes
  | .badSyntax argument => utf8 "bad flag syntax: " ++ argument
  | .undefined name => utf8 "flag provided but not defined: -" ++ name
  | .helpRequested => utf8 "flag: help requested"
  | .needsArgument name => utf8 "flag needs an argument: -" ++ name
  | .invalidValue value name why =>
    utf8 "invalid value " ++ Quoted.quote value ++ utf8 " for flag -" ++ name ++ utf8 ": " ++ refusalMessage why
  | .invalidSwitch value name =>
    utf8 "invalid boolean value " ++ Quoted.quote value ++ utf8 " for -" ++ name ++ utf8 ": parse error"
  | .twoForms second first =>
    utf8 "Cannot use two forms of the same flag: " ++ second ++ utf8 " " ++ first
  | .missing names => missingMessage names
  | .noTopic name => utf8 "No help topic for '" ++ name ++ utf8 "'"

/-- Whether help is shown beside the refusal. -/
def showsHelp : Misuse → Bool
  | .noTopic _ => false
  | _ => true

/-- The exit code of the process. -/
def exitCode : Misuse → Nat
  | .noTopic _ => 3
  | _ => 1

end Misuse

end CounterLedger.CommandLine
