/-
Dispatch: what the arguments of an application lead to. Each level reads its flags; the first
argument after them names a command, which goes on with the rest, or else the action of the level is
performed. Asking for help, at any level, wins over flags that are missing there.
-/
import CounterLedger.CommandLine.Command
import CounterLedger.CommandLine.Level

namespace CounterLedger.CommandLine

/-- What arguments lead to. -/
inductive Dispatch (α : Type) where
  /-- An action is performed with its flags. -/
  | perform (action : α) (flags : Flags)
  /-- Help is shown. -/
  | help
  | refuse (why : Misuse)
  /-- The flags of a level contradict each other. -/
  | contradiction (reason : Bytes)

variable {α : Type}

/-- Reads the flags of a level inside other levels: the levels from there on and the arguments
left, or where the arguments lead at once. At a level without commands a fault of reading is named
before one of the help flag. -/
def enter (outer : Flags) (title : Bytes) (flags : List Flag) (help last : Bool) (args : List Bytes) :
    Except (Dispatch α) (Flags × List Bytes) :=
  match Level.declare title flags help with
  | .error reason => .error (.contradiction reason)
  | .ok level =>
    let (level', rest) := level.parse args
    match rest, (if help then level'.joinHelp else .ok level') with
    | .error e, .error e' => .error (.refuse (if last then e else e'))
    | .error e, .ok _ => .error (.refuse e)
    | .ok _, .error e' => .error (.refuse e')
    | .ok rest, .ok joined =>
      let inner : Flags := joined :: outer
      if inner.wantsHelp then .error .help
      else match inner.missing flags with
        | [] => .ok (inner, rest)
        | names => .error (.refuse (.missing names))

/-- Shows help on the topic that the first argument names, or in general. -/
def showTopic (topics : List Bytes) : List Bytes → Dispatch α
  | [] => .help
  | name :: _ => if name = [] || topics.contains name then .help else .refuse (.noTopic name)

/-- Performs the action of a level, or shows help if it has none. -/
def performOr (topics : List Bytes) (action : Option α) (flags : Flags) (args : List Bytes) : Dispatch α :=
  match action with
  | some a => .perform a flags
  | none => showTopic topics args

/-- The command that shows help. -/
def helpCommand (outer : Flags) (topics : List Bytes) (args : List Bytes) : Dispatch α :=
  match enter outer (utf8 "help") [] true true args with
  | .error d => d
  | .ok (_, rest) => showTopic topics rest

/-- Whether a level with commands has the help command and flag: a command of that name takes their
place. -/
def hasHelp (commands : List (Command α)) : Bool := !commands.any fun c => c.name = utf8 "help"

/-- The topics of a level with commands. -/
def topicsOf (commands : List (Command α)) : List Bytes :=
  commands.map (·.name) ++ if hasHelp commands then helpNames else []

/-- Goes on at a level with commands, whose flags have been read: `follow` goes on with the command
of a name, if there is one. -/
def choose (commands : List (Command α)) (action : Option α) (flags : Flags)
    (follow : Bytes → List Bytes → Option (Dispatch α)) (args : List Bytes) : Dispatch α :=
  let topics := topicsOf commands
  match args with
  | [] => performOr topics action flags []
  | name :: rest =>
    match follow name rest with
    | some d => d
    | none =>
      if hasHelp commands && helpNames.contains name then helpCommand flags topics rest
      else performOr topics action flags (name :: rest)

mutual

/-- Where the arguments after the name of a command lead. The title is that of the level with the
command, and the topics are those of that level. -/
def Command.dispatch (outer : Flags) (title : Bytes) (topics : List Bytes) :
    Command α → List Bytes → Dispatch α
  | ⟨name, _, action, flags, []⟩, args =>
    match enter outer name flags true true args with
    | .error d => d
    | .ok (inner, rest) => performOr topics action inner rest
  | ⟨name, _, action, flags, c :: cs⟩, args =>
    let title' := title ++ utf8 " " ++ name
    match enter outer title' flags (hasHelp (c :: cs)) false args with
    | .error d => d
    | .ok (inner, rest) =>
      choose (c :: cs) action inner
        (fun name rest => follow inner title' (topicsOf (c :: cs)) name rest (c :: cs)) rest

/-- Goes on with the command of a name. -/
def follow (outer : Flags) (title : Bytes) (topics : List Bytes) (name : Bytes) (args : List Bytes) :
    List (Command α) → Option (Dispatch α)
  | [] => none
  | c :: cs =>
    if c.name = name then some (c.dispatch outer title topics args)
    else follow outer title topics name args cs

end

/-- Where the arguments of an application lead. -/
def Application.dispatch (app : Application α) (args : List Bytes) : Dispatch α :=
  match enter [] app.name app.flags (hasHelp app.commands) false args with
  | .error d => d
  | .ok (flags, rest) =>
    choose app.commands app.action flags
      (fun name rest => follow flags app.name (topicsOf app.commands) name rest app.commands) rest

end CounterLedger.CommandLine
