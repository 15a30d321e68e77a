/-
Structured log entries, and the level of the logger as it is chosen by a word.
-/
import CounterLedger.Error

namespace CounterLedger.Log

/-- How important an entry is. -/
inductive Level where
  | trace
  | debug
  | info
  | warn
  | error
deriving DecidableEq

/-- The rank of a level; a logger drops the entries below its own. -/
def Level.rank : Level → Nat
  | .trace => 0
  | .debug => 1
  | .info => 2
  | .warn => 3
  | .error => 4

/-- The word of a level. -/
def Level.name : Level → String
  | .trace => "trace"
  | .debug => "debug"
  | .info => "info"
  | .warn => "warn"
  | .error => "error"

/-- The level chosen by a word in any letter case: info when there is none, and everything is
logged when the word is not known. -/
def Level.ofWord (word : String) : Level :=
  match Fold.lower word with
  | "error" => .error
  | "warn" => .warn
  | "info" => .info
  | "debug" => .debug
  | "" => .info
  | _ => .trace

/-- An entry with the fields that are set on it. -/
structure Entry where
  level : Level
  message : Bytes
  service : Option Bytes := none
  contract : Option Bytes := none
  entry : Option Bytes := none
  height : Option UInt64 := none
  sender : Option Bytes := none
  owner : Option Bytes := none
  error : Option Error := none

/-- The entries that a logger of the given level writes. -/
def visible (level : Level) (entries : List Entry) : List Entry :=
  entries.filter fun e => level.rank ≤ e.level.rank

end CounterLedger.Log
