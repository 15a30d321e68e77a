/-
The directory in which the program runs: files by name, which are texts or databases. A path is
followed name by name from there or from the root. There are no directories below; those above
exist, and a file there is kept under its path.
-/
import CounterLedger.Database.Transaction

namespace CounterLedger

/-- A file. -/
inductive File where
  | text (content : Bytes)
  | database (buckets : Buckets)

/-- Files by name. -/
abbrev Directory := Table File

namespace Directory

/-- The names of the files in the directory itself. -/
def names (d : Directory) : List Bytes :=
  (d.entries.map fun e => e.1).filter fun name => !name.contains 0x2f

/-! ## Paths -/

/-- Why a path leads nowhere. -/
inductive Dead where
  | missing
  | notDirectory
  | isDirectory
  | tooLong
  | invalid
deriving DecidableEq

/-- The wording of a dead end. -/
def Dead.message : Dead → Bytes
  | .missing => utf8 "no such file or directory"
  | .notDirectory => utf8 "not a directory"
  | .isDirectory => utf8 "is a directory"
  | .tooLong => utf8 "file name too long"
  | .invalid => utf8 "invalid argument"

/-- The length from which on a path is too long. -/
def pathLimit : Nat := 4096

/-- The length of the longest name. -/
def nameLimit : Nat := 255

/-- The end of a path: the folder it leads to, and a last name in it unless the path ends in the
folder itself. -/
structure End where
  folder : Bytes
  name : Option Bytes

/-- The folder above one; above the root is the root. -/
def above (folder : Bytes) : Bytes :=
  if folder = utf8 "/" then folder else folder ++ utf8 "../"

/-- Follows the names of a path from a folder. Every name but the last one has to be a folder. -/
def follow (d : Directory) (folder : Bytes) : List Bytes → Except Dead End
  | [] => .ok ⟨folder, none⟩
  | part :: rest =>
    if part = utf8 "." then d.follow folder rest
    else if part = utf8 ".." then d.follow (above folder) rest
    else if rest = [] then .ok ⟨folder, some part⟩
    else if nameLimit < part.length then .error .tooLong
    else if d.contains (folder ++ part) then .error .notDirectory
    else .error .missing

/-- Follows a path to its end. -/
def resolve (d : Directory) (path : Bytes) : Except Dead End :=
  if path = [] then .error .missing
  else if path.contains 0 then .error .invalid
  else if pathLimit ≤ path.length then .error .tooLong
  else
    d.follow (if path.head? = some 0x2f then utf8 "/" else [])
      ((Bytes.splitOn 0x2f path).filter fun part => part ≠ [])

/-- Whether a path asks for a directory by a slash at its end. -/
def endsWithSlash (path : Bytes) : Bool := path.getLast? = some 0x2f

/-- The file at a path, which is to be created if there is none. -/
def target (d : Directory) (path : Bytes) : Except Dead Bytes :=
  match d.resolve path with
  | .error e => .error e
  | .ok ⟨_, none⟩ => .error .isDirectory
  | .ok ⟨folder, some name⟩ =>
    if endsWithSlash path then .error .isDirectory
    else if nameLimit < name.length then .error .tooLong
    else .ok (folder ++ name)

/-- What is found at a path that has to exist. -/
inductive Found where
  | directory
  | file (f : File)

/-- Looks up what is at a path. -/
def find (d : Directory) (path : Bytes) : Except Dead Found :=
  match d.resolve path with
  | .error e => .error e
  | .ok ⟨_, none⟩ => .ok .directory
  | .ok ⟨folder, some name⟩ =>
    if nameLimit < name.length then .error .tooLong
    else match d.get? (folder ++ name) with
      | none => .error .missing
      | some f => if endsWithSlash path then .error .notDirectory else .ok (.file f)

/-! ## Files -/

/-- The size of a page of a database. -/
def pageSize : Nat := 4096

/-- Why a text is no database: one page alone is too small. -/
def notDatabase (content : Bytes) : Fault :=
  if pageSize ≤ content.length && content.length < 2 * pageSize then .databaseTooSmall
  else .notADatabase

/-- Opens the database at a path, which is created if there is none or an empty file. -/
def openDatabase (d : Directory) (path : Bytes) : Except Error (Bytes × Database × Directory) :=
  match d.target path with
  | .error why => .error (.fault (.cannotOpen path why.message))
  | .ok name =>
    match d.get? name with
    | some (.database buckets) => .ok (name, { buckets }, d)
    | some (.text (b :: rest)) => .error (.fault (notDatabase (b :: rest)))
    | _ => .ok (name, {}, d.insert name (.database Table.empty))

/-- Keeps the committed contents of a database in its file. -/
def store (d : Directory) (name : Bytes) (db : Database) : Directory :=
  d.insert name (.database db.buckets)

/-- The content of the text file at a path. A database is no text, which is said by none. -/
def readText (d : Directory) (path : Bytes) : Except Bytes (Option Bytes) :=
  match d.find path with
  | .error why => .error (utf8 "open " ++ path ++ utf8 ": " ++ why.message)
  | .ok .directory => .error (utf8 "read " ++ path ++ utf8 ": " ++ Dead.message .isDirectory)
  | .ok (.file (.text content)) => .ok (some content)
  | .ok (.file (.database _)) => .ok none

end Directory

end CounterLedger
