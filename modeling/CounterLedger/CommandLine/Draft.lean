/-
Drafts of an application. Commands are declared one after the other, each on the application or on a
command declared before it, and are described further through the handle that the declaration gave.
Declaring a name again starts a new command in place of the old one, whose handle leads nowhere
from then on. Building a draft gives the tree of its commands, in the order of their names.
-/
import CounterLedger.CommandLine.Command
import CounterLedger.Table

namespace CounterLedger.CommandLine

/-- What leads to a command of a draft: its number in order of declaration. -/
abbrev Handle := Nat

/-- What is known of a command. -/
structure Sketch (α : Type) where
  description : Bytes := []
  action : Option α := none
  flags : List Flag := []
  /-- The names declared below it and where they lead, the latest first. -/
  names : List (Bytes × Handle) := []

/-- Lets a name lead to a handle, in place of the one it led to. -/
def Sketch.bind {α : Type} (s : Sketch α) (name : Bytes) (h : Handle) : Sketch α :=
  { s with names := (name, h) :: s.names.filter fun e => e.1 ≠ name }

/-- Commands in order of declaration; the first one is the application itself. -/
structure Draft (α : Type) where
  sketches : List (Sketch α) := [{}]

namespace Draft

variable {α : Type}

/-- The handle of the application. -/
def root : Handle := 0

/-- The sketch of a handle. -/
def sketch (d : Draft α) (h : Handle) : Sketch α := d.sketches.getD h {}

/-- Changes the sketch of a handle. -/
def modify (d : Draft α) (h : Handle) (f : Sketch α → Sketch α) : Draft α :=
  ⟨d.sketches.modify h f⟩

/-- The handle of the next command to be declared. -/
def next (d : Draft α) : Handle := d.sketches.length

/-- Declares a command on the one of a handle. -/
def declare (d : Draft α) (on : Handle) (name : Bytes) : Draft α :=
  ⟨(d.modify on fun s => s.bind name d.next).sketches ++ [({} : Sketch α)]⟩

/-- Sets the description of a command. -/
def describe (d : Draft α) (on : Handle) (text : Bytes) : Draft α :=
  d.modify on fun s => { s with description := text }

/-- Sets the action of a command. -/
def setAction (d : Draft α) (on : Handle) (action : Option α) : Draft α :=
  d.modify on fun s => { s with action }

/-- Sets the flags of a command. -/
def setFlags (d : Draft α) (on : Handle) (flags : List Flag) : Draft α :=
  d.modify on fun s => { s with flags }

/-- One step of drafting. -/
inductive Edit (α : Type) where
  | declare (on : Handle) (name : Bytes)
  | describe (on : Handle) (text : Bytes)
  | setAction (on : Handle) (action : Option α)
  | setFlags (on : Handle) (flags : List Flag)

/-- Takes one step. -/
def edit (d : Draft α) : Edit α → Draft α
  | .declare on name => d.declare on name
  | .describe on text => d.describe on text
  | .setAction on action => d.setAction on action
  | .setFlags on flags => d.setFlags on flags

/-- The draft after some steps. -/
def ofEdits (es : List (Edit α)) : Draft α := es.foldl edit {}

/-! ## Building -/

/-- The commands below a handle, at most `depth` levels of them, in ascending order of their
names. -/
def commandsBelow (d : Draft α) : Nat → Handle → List (Command α)
  | 0, _ => []
  | depth + 1, h =>
    (Table.ofList (d.sketch h).names).entries.map fun (name, child) =>
      let s := d.sketch child
      { name
        description := s.description
        action := s.action
        flags := s.flags
        commands := commandsBelow d depth child }

/-- The commands of the application. A command is declared after the one above it, so there are
fewer levels than sketches. -/
def commands (d : Draft α) : List (Command α) := d.commandsBelow d.sketches.length root

/-- The usage of an application that does not say what it is for. -/
def defaultUsage : Bytes := utf8 "A new cli application"

/-- The application of a draft. -/
def build (d : Draft α) (name : Bytes) : Application α :=
  let s := d.sketch root
  { name
    usage := if s.description = [] then defaultUsage else s.description
    action := s.action
    flags := s.flags
    commands := d.commands }

end Draft

end CounterLedger.CommandLine
