/-
Runs of the console. A run reads its arguments, opens the database that the flags and the settings
name, performs one command on a host of its own and leaves the database in its file. What is wrong
with the arguments is found before the settings are read, and these before the database is opened.
-/
import CounterLedger.CommandLine.Dispatch
import CounterLedger.Console.Command
import CounterLedger.Counter.Handler
import CounterLedger.Settings

namespace CounterLedger.Console

open CommandLine

/-- The service of the console: the counter contract under its name. -/
def service : Service := { contracts := Table.empty.insert Counter.contractName (some Counter.contract) }

/-- The settings of a run: the defaults or those of a file, over which the flags win. -/
def settings (flags : Flags) (load : Bytes → Except Error Settings) : Except Error Settings :=
  match (if flags.isSet configFlag then load (flags.string configFlag) else .ok {}) with
  | .error e => .error e
  | .ok s =>
    .ok
      { chain := if flags.isSet chainFlag then flags.string chainFlag else s.chain
        database := if flags.isSet databaseFlag then flags.string databaseFlag else s.database }

/-! ## Commands -/

/-- What is printed for an accepted transition. -/
def accepted (r : Response) : Bytes :=
  utf8 "accepted " ++
    Bytes.join (utf8 " ") (r.attributes.map fun (k, v) => k ++ utf8 "=" ++ v) ++ utf8 "\n"

/-- Runs a transition on behalf of the sender. -/
def transition (h : Host) (action : Action) (c : Context) (flags : Flags) (msg : Bytes) :
    Host.Called Bytes :=
  let r := h.invoke action ⟨flags.string senderFlag⟩ Counter.contractName (some msg)
  { outcome := (r.outcome.map fun e => accepted e.response).mapError (.within c)
    host := r.host
    logs := r.logs }

/-- The message of a reset: it carries a value only when one is given. -/
def resetMsg (flags : Flags) : Counter.ExecuteMsg :=
  .reset (if flags.isSet valueFlag then some (flags.word valueFlag) else none)

/-- Performs a command on a host. Its result is what it prints. -/
def perform (task : Task) (flags : Flags) (h : Host) : Host.Called Bytes :=
  match task with
  | .instantiate =>
    transition h .instantiate .instantiateCommand flags
      (Counter.InstantiateMsg.encode ⟨flags.word counterFlag⟩)
  | .increment => transition h .execute .executeCommand flags (Counter.ExecuteMsg.encode .increment)
  | .reset => transition h .execute .executeCommand flags (Counter.ExecuteMsg.encode (resetMsg flags))
  | .count =>
    let r := h.query Counter.contractName (some (Counter.QueryMsg.encode .getCount))
    { outcome := (r.outcome.map fun b => b.getD [] ++ utf8 "\n").mapError (.within .queryCommand)
      host := r.host
      logs := r.logs }
  | .version =>
    let r := h.contractInfo Counter.contractName
    { outcome :=
        (r.map fun v => v.contract ++ utf8 " " ++ v.version ++ utf8 "\n").mapError (.within .readVersion)
      host := h }

/-! ## Output -/

/-- What a run leaves. -/
structure Ran where
  outcome : Outcome Unit
  /-- What the command printed. -/
  printed : Bytes := []
  /-- Whether help was shown. -/
  help : Bool := false
  directory : Directory
  logs : List Log.Entry := []

/-- The error of an output that cannot be written. -/
def unwritten : Error := .report .printMetrics (.report .writeOutput (.ofKind .injected))

/-- What is printed after a command that printed a text, on a host that has served it: the metrics,
if they are asked for. Only the metrics notice that the output is broken. -/
def output (broken : Bool) (flags : Flags) (metrics : Metrics) (text : Bytes) : Outcome Unit × Bytes :=
  let more := if flags.bool metricsFlag then metrics.exposition else []
  if broken then (if more = [] then .ok () else .error unwritten, [])
  else (.ok (), text ++ more)

/-- Performs a command on the open database of a file. -/
def serve (broken : Bool) (task : Task) (flags : Flags) (chain : Bytes) (d : Directory) (file : Bytes)
    (db : Database) : Ran :=
  let r := perform task flags { service, chain, database := db }
  let directory := d.store file r.host.database
  match r.outcome with
  | .error e => { outcome := .error e, directory, logs := r.logs }
  | .abort a => { outcome := .abort a, directory, logs := r.logs }
  | .ok text =>
    let (outcome, printed) := output broken flags r.host.metrics text
    { outcome, printed, directory, logs := r.logs }

/-! ## Runs -/

/-- Runs the console in a directory. With `broken`, nothing can be written to the output. -/
def run (broken : Bool) (d : Directory) (args : List Bytes) : Ran :=
  match application.dispatch args with
  | .help => { outcome := .ok (), help := true, directory := d }
  | .refuse m => { outcome := .error (.fault (.misuse m)), help := m.showsHelp, directory := d }
  | .contradiction reason => { outcome := .abort (some reason), directory := d }
  | .perform task flags =>
    match settings flags (Settings.load d) with
    | .error e => { outcome := .error e, directory := d }
    | .ok s =>
      match d.openDatabase s.database with
      | .error e => { outcome := .error (.report .openDatabase e), directory := d }
      | .ok (file, db, d') => serve broken task flags s.chain d' file db

/-- The exit code of the process. -/
def exitCode : Outcome Unit → Nat
  | .ok _ => 0
  | .error (.fault (.misuse m)) => m.exitCode
  | .error _ => 1
  | .abort _ => 1

end CounterLedger.Console
