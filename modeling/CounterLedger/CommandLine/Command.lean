/-
Commands of an application, as a tree.
-/
import CounterLedger.CommandLine.Flag

namespace CounterLedger.CommandLine

/-- A command with its flags, its action if it has one, and the commands below it. -/
structure Command (α : Type) where
  name : Bytes
  description : Bytes
  action : Option α
  flags : List Flag
  commands : List (Command α)

/-- The commands that a listing shows: all but the one that shows help. -/
def Command.listed {α : Type} (cs : List (Command α)) : List (Command α) :=
  cs.filter fun c => c.name ≠ utf8 "help"

/-- A whole application, with the flags that every command sees. -/
structure Application (α : Type) where
  name : Bytes
  usage : Bytes
  action : Option α
  flags : List Flag
  commands : List (Command α)

end CounterLedger.CommandLine
