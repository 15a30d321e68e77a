/-
Help on an application: what it is for, its commands with their flags, and the flags of all.
-/
import CounterLedger.CommandLine.Command

namespace CounterLedger.CommandLine

/-- A line of help: a name and what it is for. -/
def helpLine (indent : Nat) (name what : Bytes) : Bytes :=
  List.replicate indent 0x20 ++ name ++ (if what = [] then [] else utf8 "  " ++ what) ++ utf8 "\n"

/-- The line of a flag. -/
def Flag.help (indent : Nat) (f : Flag) : Bytes := helpLine indent (utf8 "--" ++ f.key) f.usage

mutual

/-- The lines of a command, of its flags and of the commands below it. -/
def Command.help {α : Type} (indent : Nat) : Command α → Bytes
  | ⟨name, description, _, flags, commands⟩ =>
    helpLine indent name description ++ flags.flatMap (Flag.help (indent + 3)) ++
      commandsHelp (indent + 3) commands

/-- The lines of some commands. -/
def commandsHelp {α : Type} (indent : Nat) : List (Command α) → Bytes
  | [] => []
  | c :: cs => c.help indent ++ commandsHelp indent cs

end

/-- The help on a whole application. -/
def Application.help {α : Type} (app : Application α) : Bytes :=
  utf8 "NAME:\n" ++ helpLine 3 (app.name ++ utf8 " - " ++ app.usage) [] ++
    utf8 "\nCOMMANDS:\n" ++ commandsHelp 3 app.commands ++
    utf8 "\nGLOBAL OPTIONS:\n" ++ app.flags.flatMap (Flag.help 3)

end CounterLedger.CommandLine
