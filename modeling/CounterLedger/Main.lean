/-
The command line program. Files are read and written here; what is done with their contents, and
with the arguments, is decided elsewhere.
-/
import CounterLedger.CommandLine.Help
import CounterLedger.Console.Run
import CounterLedger.Database.Image

namespace CounterLedger.Console

open CommandLine

/-- Writes bytes to a stream. -/
def write (stream : IO.FS.Stream) (b : Bytes) : IO Unit := do
  stream.write ⟨b.toArray⟩
  stream.flush

/-- Why a file could not be used. -/
def reason : IO.Error → String
  | .noFileOrDirectory .. => "no such file or directory"
  | .permissionDenied .. => "permission denied"
  | .inappropriateType .. => "is a directory"
  | e => toString e

/-- The content of a file, or why there is none. -/
def readFile (path : Bytes) : IO (Except String Bytes) := do
  try
    let content ← IO.FS.readBinFile (Utf8.toText path)
    return .ok content.toList
  catch e => return .error (reason e)

/-- Opens the database of a file, which is created if there is none. -/
def openFile (path : Bytes) : IO (Except Error Database) := do
  let cannot (why : String) : Error := .fault (.cannotOpen path (utf8 why))
  let fresh : IO (Except Error Database) := do
    try
      IO.FS.writeBinFile (Utf8.toText path) ⟨(Image.encode Table.empty).toArray⟩
      return .ok {}
    catch e => return .error (cannot (reason e))
  match ← readFile path with
  | .ok [] => fresh
  | .ok content =>
    match Image.decode content with
    | some buckets => return .ok { buckets }
    | none => return .error (.fault .notADatabase)
  | .error "no such file or directory" => fresh
  | .error why => return .error (cannot why)

/-- The settings that the flags ask for. -/
def readSettings (flags : Flags) : IO (Except Error Settings) := do
  let path := flags.string configFlag
  if flags.isSet configFlag then
    match ← readFile path with
    | .ok content => return settings flags fun _ => Settings.ofFile (.ok (some content))
    | .error why =>
      return settings flags fun _ => Settings.ofFile (.error (utf8 "open " ++ path ++ utf8 ": " ++ utf8 why))
  else return settings flags fun _ => .ok {}

/-- Writes the log entries that the level lets through. -/
def writeLogs (entries : List Log.Entry) : IO Unit := do
  let level := Log.Level.ofWord ((← IO.getEnv "LLVL").getD "")
  let stderr ← IO.getStderr
  for e in Log.visible level entries do
    write stderr (utf8 e.level.name ++ utf8 " " ++ e.message ++ utf8 "\n")

/-- Ends a run: errors are told and turned into an exit code. -/
def finish (outcome : Outcome Unit) : IO UInt32 := do
  let stderr ← IO.getStderr
  match outcome with
  | .ok _ => pure ()
  | .error e => write stderr (e.message ++ utf8 "\n")
  | .abort r => write stderr (r.getD [] ++ utf8 "\n")
  return UInt32.ofNat (exitCode outcome)

/-- Performs a command on the files that its flags name. -/
def performOnFiles (task : Task) (flags : Flags) : IO UInt32 := do
  match ← readSettings flags with
  | .error e => finish (.error e)
  | .ok s =>
    match ← openFile s.database with
    | .error e => finish (.error (.report .openDatabase e))
    | .ok db =>
      let ran := serve false task flags s.chain Table.empty s.database db
      match ran.directory.get? s.database with
      | some (.database buckets) =>
        IO.FS.writeBinFile (Utf8.toText s.database) ⟨(Image.encode buckets).toArray⟩
      | _ => pure ()
      writeLogs ran.logs
      write (← IO.getStdout) ran.printed
      finish ran.outcome

/-- Runs the console on the files of the machine. -/
def runOnFiles (args : List String) : IO UInt32 := do
  match application.dispatch (args.map utf8) with
  | .perform task flags => performOnFiles task flags
  | .help =>
    write (← IO.getStdout) application.help
    finish (.ok ())
  | .refuse m =>
    if m.showsHelp then write (← IO.getStdout) application.help
    finish (.error (.fault (.misuse m)))
  | .contradiction reason => finish (.abort (some reason))

end CounterLedger.Console

/-- The program. -/
def main (args : List String) : IO UInt32 := CounterLedger.Console.runOnFiles args
