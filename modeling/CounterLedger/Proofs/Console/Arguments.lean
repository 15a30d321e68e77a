/-
What the arguments of the console lead to. A flag in front of its value binds that value, a word of
the command ends the flags of its level, and the levels around an action are those of the commands on
the way to it. So each invocation of the console performs its own task, and its flags are exactly the
values it was written with.
-/
import CounterLedger.Console.Run
import CounterLedger.Proofs.Text.Numeral

namespace CounterLedger

namespace CommandLine

/-! ## Levels -/

theorem Level.parse_word {l : Level} {a : Bytes} (h : Argument.ofBytes a = .word) (rest : List Bytes) :
    l.parse (a :: rest) = (l, .ok (a :: rest)) := by
  rw [Level.parse, h]

/-- A flag that is no switch takes the next argument as its value, whatever that is. -/
theorem Level.parse_value {l : Level} {a name : Bytes} {s : Slot} {v : Value} {text : Bytes}
    (harg : Argument.ofBytes a = .flag name none) (hfind : l.find? name = some s) (hswitch : s.value.isSwitch = false)
    (hread : s.value.read text = .ok v) (rest : List Bytes) :
    l.parse (a :: text :: rest) = (l.give s.name v).parse rest := by
  rw [Level.parse, harg]
  simp only [hfind, hswitch, Bool.false_eq_true, if_false, Level.giveText, hread]

variable {α : Type}

/-- A level whose flags are read, and where neither help is asked for nor a flag is missing. -/
theorem enter_eq_ok {outer : Flags} {title : Bytes} {flags : List Flag} {help last : Bool} {args rest : List Bytes}
    {level level' joined : Level} (hdeclare : Level.declare title flags help = .ok level)
    (hparse : level.parse args = (level', .ok rest))
    (hjoin : (if help then level'.joinHelp else .ok level') = .ok joined)
    (hhelp : Flags.wantsHelp (joined :: outer) = false) (hmissing : Flags.missing (joined :: outer) flags = []) :
    (enter outer title flags help last args : Except (Dispatch α) _) = .ok (joined :: outer, rest) := by
  unfold enter
  simp only [hdeclare, hparse, hjoin, hhelp, hmissing, Bool.false_eq_true, if_false]

/-! ## Ways to an action -/

theorem follow_head {outer : Flags} {title : Bytes} {topics : List Bytes} {c : Command α} {cs : List (Command α)}
    {args : List Bytes} :
    follow outer title topics c.name args (c :: cs) = some (c.dispatch outer title topics args) := by
  rw [follow, if_pos rfl]

theorem follow_tail {outer : Flags} {title : Bytes} {topics : List Bytes} {name : Bytes} {c : Command α}
    {cs : List (Command α)} {args : List Bytes} (h : c.name ≠ name) :
    follow outer title topics name args (c :: cs) = follow outer title topics name args cs := by
  rw [follow, if_neg h]

theorem Command.dispatch_leaf {outer inner : Flags} {title name description : Bytes} {topics : List Bytes} {a : α}
    {flags : List Flag} {args rest : List Bytes}
    (h : (enter outer name flags true true args : Except (Dispatch α) _) = .ok (inner, rest)) :
    Command.dispatch outer title topics ⟨name, description, some a, flags, []⟩ args = .perform a inner := by
  rw [Command.dispatch, h]
  rfl

theorem Command.dispatch_node {outer inner : Flags} {title name description : Bytes} {topics : List Bytes}
    {action : Option α} {flags : List Flag} {c : Command α} {cs : List (Command α)} {args rest : List Bytes}
    {next : Bytes} {d : Dispatch α}
    (h : (enter outer (title ++ utf8 " " ++ name) flags (hasHelp (c :: cs)) false args : Except (Dispatch α) _) =
      .ok (inner, next :: rest))
    (hnext : follow inner (title ++ utf8 " " ++ name) (topicsOf (c :: cs)) next rest (c :: cs) = some d) :
    Command.dispatch outer title topics ⟨name, description, action, flags, c :: cs⟩ args = d := by
  rw [Command.dispatch, h]
  simp only [choose, hnext]

theorem Application.dispatch_eq {app : Application α} {flags : Flags} {args rest : List Bytes} {next : Bytes}
    {d : Dispatch α}
    (h : (enter [] app.name app.flags (hasHelp app.commands) false args : Except (Dispatch α) _) =
      .ok (flags, next :: rest))
    (hnext : CommandLine.follow flags app.name (topicsOf app.commands) next rest app.commands = some d) :
    app.dispatch args = d := by
  rw [Application.dispatch, h]
  simp only [choose, hnext]

end CommandLine

namespace Console

open CommandLine

/-! ## Invocations -/

/-- What the console is asked for, on a database. -/
inductive Invocation where
  | instantiate (sender : Bytes) (count : Option UInt64)
  | increment (sender : Bytes)
  | reset (sender : Bytes) (value : Option UInt64)
  | count
  | version

/-- A flag with a number, if there is one. -/
def numberArgs (flag : Bytes) : Option UInt64 → List Bytes
  | some n => [flag, Numeral.decimal n.toNat]
  | none => []

/-- The arguments of an invocation on the database at a path. -/
def Invocation.args (path : Bytes) : Invocation → List Bytes
  | .instantiate S n =>
    utf8 "--db" :: path :: utf8 "instantiate" :: utf8 "--sender" :: S :: numberArgs (utf8 "--counter") n
  | .increment S => [utf8 "--db", path, utf8 "execute", utf8 "increment", utf8 "--sender", S]
  | .reset S v =>
    utf8 "--db" :: path :: utf8 "execute" :: utf8 "reset" :: utf8 "--sender" :: S :: numberArgs (utf8 "--value") v
  | .count => [utf8 "--db", path, utf8 "query", utf8 "count"]
  | .version => [utf8 "--db", path, utf8 "version"]

def Invocation.task : Invocation → Task
  | .instantiate _ _ => .instantiate
  | .increment _ => .increment
  | .reset _ _ => .reset
  | .count => .count
  | .version => .version

/-! ## Levels of the console -/

/-- The slots of the help flag, which is never given here. -/
def helpLevel : Level := [⟨utf8 "help", .bool false, false⟩, ⟨utf8 "h", .bool false, false⟩]

/-- The flags that every command sees, with the path of the database. -/
def globalLevel (path : Bytes) : Level :=
  [⟨configFlag, .string [], false⟩, ⟨databaseFlag, .string path, true⟩, ⟨chainFlag, .string [], false⟩,
    ⟨metricsFlag, .bool false, false⟩] ++ helpLevel

def senderSlot (S : Bytes) : Slot := ⟨senderFlag, .string S, true⟩

/-- The slot of a number, which may have been left out. -/
def numberSlot (flag : Bytes) (n : Option UInt64) : Slot := ⟨flag, .word (n.getD 0), n.isSome⟩

/-- The flags that an invocation is performed with. -/
def Invocation.flags (path : Bytes) : Invocation → Flags
  | .instantiate S n => [[senderSlot S, numberSlot counterFlag n] ++ helpLevel, globalLevel path]
  | .increment S => [[senderSlot S] ++ helpLevel, helpLevel, globalLevel path]
  | .reset S v => [[senderSlot S, numberSlot valueFlag v] ++ helpLevel, helpLevel, globalLevel path]
  | .count => [helpLevel, helpLevel, globalLevel path]
  | .version => [helpLevel, globalLevel path]

/-! ## Dispatch -/

/-- A level of flags none of which is given yet. -/
def declared (flags : List Flag) : Level := flags.map (fun f => ⟨f.key, f.value, false⟩) ++ helpLevel

theorem read_number (m n : UInt64) : Value.read (.word m) (Numeral.decimal n.toNat) = .ok (.word n) := by
  rw [Value.read, Numeral.unsigned_decimal n.toNat_lt_size]
  simp only [UInt64.ofNat_toNat]

theorem parse_global (path : Bytes) {word : Bytes} (hword : Argument.ofBytes word = .word) (rest : List Bytes) :
    (declared globalFlags).parse (utf8 "--db" :: path :: word :: rest) = (globalLevel path, .ok (word :: rest)) := by
  rw [Level.parse_value rfl rfl rfl rfl, Level.parse_word hword]
  rfl

theorem parse_sender (S : Bytes) : (declared [sender]).parse [utf8 "--sender", S] =
    ([senderSlot S] ++ helpLevel, .ok []) := by
  rw [Level.parse_value rfl rfl rfl rfl]
  rfl

/-- The caller and possibly a number, which a level that has both reads as they were written. -/
theorem parse_number (number : Flag) {flag : Bytes} (hvalue : number.value = .word 0)
    (hkey : ¬ senderFlag = number.key) (hhelp : ∀ name ∈ helpNames, ¬ name = number.key)
    (harg : Argument.ofBytes flag = .flag number.key none) (S : Bytes) (n : Option UInt64) :
    (declared [sender, number]).parse (utf8 "--sender" :: S :: numberArgs flag n) =
      ([senderSlot S, numberSlot number.key n] ++ helpLevel, .ok []) := by
  have hsender : (declared [sender, number]).give senderFlag (.string S) =
      [senderSlot S, numberSlot number.key none] ++ helpLevel := by
    have hnames : sender.key = senderFlag ∧ ¬ utf8 "help" = senderFlag ∧ ¬ utf8 "h" = senderFlag := by decide
    simp only [declared, Level.give, helpLevel, List.map_cons, List.map_nil, List.cons_append, List.nil_append, hnames,
      Ne.symm hkey, hvalue, if_true, if_false]
    rfl
  rw [Level.parse_value (s := ⟨senderFlag, .string [], false⟩) rfl rfl rfl rfl, hsender]
  cases n with
  | none => rfl
  | some n =>
    have hfind : Level.find? ([senderSlot S, numberSlot number.key none] ++ helpLevel) number.key =
        some (numberSlot number.key none) := by
      simp [Level.find?, senderSlot, numberSlot, hkey]
    have hgive : Level.give ([senderSlot S, numberSlot number.key none] ++ helpLevel) number.key (.word n) =
        [senderSlot S, numberSlot number.key (some n)] ++ helpLevel := by
      have hnames : ¬ utf8 "help" = number.key ∧ ¬ utf8 "h" = number.key :=
        ⟨hhelp _ (by decide), hhelp _ (by decide)⟩
      simp [Level.give, senderSlot, numberSlot, helpLevel, hkey, hnames]
    rw [numberArgs, Level.parse_value harg hfind rfl (read_number 0 n), ← hgive]
    rfl

theorem enter_global (path : Bytes) {word : Bytes} (hword : Argument.ofBytes word = .word) (rest : List Bytes) :
    (enter [] application.name application.flags (hasHelp application.commands) false
      (utf8 "--db" :: path :: word :: rest) : Except (Dispatch Task) _) = .ok ([globalLevel path], word :: rest) :=
  enter_eq_ok rfl (parse_global path hword rest) rfl rfl rfl

theorem enter_node (path title : Bytes) {word : Bytes} (hword : Argument.ofBytes word = .word) (rest : List Bytes) :
    (enter [globalLevel path] title [] true false (word :: rest) : Except (Dispatch Task) _) =
      .ok ([helpLevel, globalLevel path], word :: rest) :=
  enter_eq_ok rfl (Level.parse_word hword rest) rfl rfl rfl

theorem application_commands : application.commands =
    [⟨utf8 "execute", utf8 "apply a transition to the counter", none, [],
      [⟨utf8 "increment", utf8 "add one to the counter", some .increment, [sender], []⟩,
        ⟨utf8 "reset", utf8 "overwrite the counter, only allowed to the owner", some .reset, [sender, value], []⟩]⟩,
      ⟨utf8 "instantiate", utf8 "initialize the counter contract, the sender becomes the owner", some .instantiate,
        [sender, counter], []⟩,
      ⟨utf8 "query", utf8 "read the counter", none, [],
        [⟨utf8 "count", utf8 "print the current value of the counter", some .count, [], []⟩]⟩,
      ⟨utf8 "version", utf8 "print the contract version stored at instantiation", some .version, [], []⟩] := rfl

/-- An invocation performs its task, with its flags. -/
theorem dispatch_args (path : Bytes) (i : Invocation) :
    application.dispatch (i.args path) = .perform i.task (i.flags path) := by
  -- from the words in front to the action: the commands before the named one are passed over
  cases i with
  | instantiate S n =>
    have hparse := parse_number counter rfl (by decide) (by decide)
      (show Argument.ofBytes (utf8 "--counter") = _ from rfl) S n
    refine Application.dispatch_eq (enter_global path rfl _) ?_
    rw [application_commands, follow_tail (by decide)]
    exact follow_head.trans (congrArg some (Command.dispatch_leaf (enter_eq_ok rfl hparse rfl rfl rfl)))
  | increment S =>
    refine Application.dispatch_eq (enter_global path rfl _) ?_
    rw [application_commands]
    refine follow_head.trans (congrArg some (Command.dispatch_node (enter_node path _ rfl _) ?_))
    exact follow_head.trans (congrArg some (Command.dispatch_leaf (enter_eq_ok rfl (parse_sender S) rfl rfl rfl)))
  | reset S v =>
    have hparse := parse_number value rfl (by decide) (by decide)
      (show Argument.ofBytes (utf8 "--value") = _ from rfl) S v
    refine Application.dispatch_eq (enter_global path rfl _) ?_
    rw [application_commands]
    refine follow_head.trans (congrArg some (Command.dispatch_node (enter_node path _ rfl _) ?_))
    rw [follow_tail (by decide)]
    exact follow_head.trans (congrArg some (Command.dispatch_leaf (enter_eq_ok rfl hparse rfl rfl rfl)))
  | count =>
    refine Application.dispatch_eq (enter_global path rfl _) ?_
    rw [application_commands, follow_tail (by decide), follow_tail (by decide)]
    refine follow_head.trans (congrArg some (Command.dispatch_node (enter_node path _ rfl _) ?_))
    exact follow_head.trans (congrArg some (Command.dispatch_leaf (enter_eq_ok rfl rfl rfl rfl rfl)))
  | version =>
    refine Application.dispatch_eq (enter_global path rfl _) ?_
    rw [application_commands, follow_tail (by decide), follow_tail (by decide), follow_tail (by decide)]
    exact follow_head.trans (congrArg some (Command.dispatch_leaf (enter_eq_ok rfl rfl rfl rfl rfl)))

/-! ## What an action sees -/

/-- Without a file of settings, the database is the one at the path. -/
theorem settings_flags (path : Bytes) (i : Invocation) (load : Bytes → Except Error Settings) :
    settings (i.flags path) load = .ok { database := path } := by
  cases i <;> rfl

theorem metrics_flags (path : Bytes) (i : Invocation) : (i.flags path).bool metricsFlag = false := by
  cases i <;> rfl

theorem word_number {fs : Flags} {flag : Bytes} {n : Option UInt64}
    (hfind : fs.find? flag = some (numberSlot flag n)) : fs.word flag = n.getD 0 := by
  rw [Flags.word, Flags.string, hfind]
  simp only [numberSlot, Value.text, Numeral.unsigned_decimal (n.getD 0).toNat_lt_size, UInt64.ofNat_toNat]

/-- A reset that is asked for without a value has none in its message. -/
theorem resetMsg_flags (path S : Bytes) (v : Option UInt64) :
    resetMsg ((Invocation.reset S v).flags path) = .reset v := by
  have hword : ((Invocation.reset S v).flags path).word valueFlag = v.getD 0 := word_number rfl
  have hset : ((Invocation.reset S v).flags path).isSet valueFlag = v.isSome := rfl
  rw [resetMsg, hword, hset]
  cases v <;> rfl

end Console

end CounterLedger
