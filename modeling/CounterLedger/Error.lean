/-
Errors. An error is a cause, possibly seen from further out: each layer adds its own context in
front of the text. A context keeps the kind of the cause, so that a caller can still tell an
unauthorized call from an overflow, while a report keeps the text only.
-/
import CounterLedger.CommandLine.Misuse
import CounterLedger.Json.Field

namespace CounterLedger

/-- What callers tell apart about an error. -/
inductive Kind where
  | stateNotFound
  | unauthorized
  | invalidInput
  | overflow
  | shouldNotEnter
  | versionNotFound
  /-- A fault injected into a store or a database. -/
  | injected
  | other
deriving DecidableEq

/-- A fact that fails an operation by itself. -/
inductive Fault where
  /-- The error of one of the kinds that callers tell apart. -/
  | kind (k : Kind)
  | alreadyInstantiated (contract : Bytes)
  | notInstantiated (contract : Bytes)
  | unknownContract (contract : Bytes)
  | callerMissing
  | notCommitted
  | undecodableState (why : Json.ReadError)
  | undecodableVersion (why : Json.ReadError)
  | undecodableAddress (why : Json.ReadError)
  | notWritable
  | keyRequired
  | keyTooLarge
  | bucketNameRequired
  | databaseClosed
  | cannotOpen (path : Bytes) (why : Bytes)
  | notADatabase
  | databaseTooSmall
  | cannotRead (why : Bytes)
  | cannotParse (why : Bytes)
  | misuse (m : CommandLine.Misuse)
  /-- An error raised by the caller's own code, with its own text. -/
  | custom (text : Bytes)
deriving DecidableEq

/-- The step that was under way, as it is put in front of the text of an error. -/
inductive Context where
  | parent
  | applyKey (key : Bytes)
  | commit
  | readMarker
  | writeMarker
  | readState
  | writeState
  | readVersion
  | writeVersion
  | setVersion
  | increment
  | reset
  | getCount
  | unexpectedExecute (given : Bytes)
  | unexpectedQuery (given : Bytes)
  | incrementWith (given : Bytes)
  | resetWith (given : Bytes)
  | getCountWith (given : Bytes)
  | notOwner (sender : Bytes)
  | missingSender
  | missingValue
  | missingCounter
  | missingMessage
  | malformed (what : Bytes) (why : Json.ReadError)
  | variantCount (n : Nat)
  | unknownExecute (name : Bytes)
  | unknownQuery (name : Bytes)
  | instantiateCommand
  | executeCommand
  | queryCommand
  | createBucket
  | hostBucket
  | stateBucket
  | readHeight
  | writeHeight
  | openDatabase
  | printMetrics
  | writeOutput
  | callback
deriving DecidableEq

/-- An error of any layer. -/
inductive Error where
  | fault (f : Fault)
  /-- A cause seen through a context that keeps its kind. -/
  | within (c : Context) (cause : Error)
  /-- A cause of which only the text is kept. -/
  | report (c : Context) (cause : Error)
deriving DecidableEq

/-- The wording of the kinds; the last one is never a fault by itself. -/
def Kind.message : Kind → Bytes
  | .stateNotFound => utf8 "state not found"
  | .unauthorized => utf8 "unauthorized"
  | .invalidInput => utf8 "invalid input"
  | .overflow => utf8 "counter overflow"
  | .shouldNotEnter => utf8 "should not enter"
  | .versionNotFound => utf8 "contract version not found"
  | .injected => utf8 "fake error"
  | .other => utf8 "error"

/-- A text between single quotes. -/
def inQuotes (s : Bytes) : Bytes := 0x27 :: s ++ [0x27]

/-- The wording of a fault. -/
def Fault.message : Fault → Bytes
  | .kind k => k.message
  | .alreadyInstantiated c => utf8 "contract " ++ inQuotes c ++ utf8 " already instantiated"
  | .notInstantiated c => utf8 "contract " ++ inQuotes c ++ utf8 " not instantiated"
  | .unknownContract c => utf8 "unknown contract " ++ inQuotes c
  | .callerMissing => utf8 "caller is missing"
  | .notCommitted => utf8 "call not committed"
  | .undecodableState why => utf8 "failed to decode state: " ++ why.message
  | .undecodableVersion why => utf8 "failed to decode: " ++ why.message
  | .undecodableAddress why => utf8 "invalid address: " ++ why.message
  | .notWritable => utf8 "tx not writable"
  | .keyRequired => utf8 "key required"
  | .keyTooLarge => utf8 "key too large"
  | .bucketNameRequired => utf8 "bucket name required"
  | .databaseClosed => utf8 "database not open"
  | .cannotOpen path why => utf8 "failed to open db: open " ++ path ++ utf8 ": " ++ why
  | .notADatabase => utf8 "failed to open db: invalid database"
  | .databaseTooSmall => utf8 "failed to open db: file size too small"
  | .cannotRead why => utf8 "failed to read config: " ++ why
  | .cannotParse why => utf8 "failed to parse config: " ++ why
  | .misuse m => m.message
  | .custom text => text

/-- The key as it is named in a message: nothing for the empty key. -/
def shownKey (key : Bytes) : Bytes := if key = [] then [] else utf8 "0x" ++ key.toHex

/-- The wording of a context. -/
def Context.message : Context → Bytes
  | .parent => utf8 "parent"
  | .applyKey key => utf8 "failed to apply key " ++ shownKey key
  | .commit => utf8 "failed to commit"
  | .readMarker => utf8 "failed to read marker"
  | .writeMarker => utf8 "failed to write marker"
  | .readState => utf8 "failed to read state"
  | .writeState => utf8 "failed to write state"
  | .readVersion => utf8 "failed to read version"
  | .writeVersion => utf8 "failed to write version"
  | .setVersion => utf8 "failed to set version"
  | .increment => utf8 "failed to increment"
  | .reset => utf8 "failed to reset"
  | .getCount => utf8 "failed to get count"
  | .unexpectedExecute given => utf8 "unexpected execute message " ++ given
  | .unexpectedQuery given => utf8 "unexpected query message " ++ given
  | .incrementWith given => utf8 "increment with " ++ given
  | .resetWith given => utf8 "reset with " ++ given
  | .getCountWith given => utf8 "get count with " ++ given
  | .notOwner sender => utf8 "sender " ++ inQuotes sender ++ utf8 " is not the owner"
  | .missingSender => utf8 "missing sender"
  | .missingValue => utf8 "missing value"
  | .missingCounter => utf8 "missing counter"
  | .missingMessage => utf8 "missing message"
  | .malformed what why => utf8 "malformed " ++ what ++ utf8 " (" ++ why.message ++ utf8 ")"
  | .variantCount n => utf8 "expected one variant but got " ++ Numeral.decimal n
  | .unknownExecute name => utf8 "unknown execute message " ++ inQuotes name
  | .unknownQuery name => utf8 "unknown query message " ++ inQuotes name
  | .instantiateCommand => utf8 "failed to instantiate"
  | .executeCommand => utf8 "failed to execute"
  | .queryCommand => utf8 "failed to query"
  | .createBucket => utf8 "failed to create bucket"
  | .hostBucket => utf8 "host bucket"
  | .stateBucket => utf8 "state bucket"
  | .readHeight => utf8 "failed to read height"
  | .writeHeight => utf8 "failed to write height"
  | .openDatabase => utf8 "failed to open database"
  | .printMetrics => utf8 "failed to print metrics"
  | .writeOutput => utf8 "failed to write"
  | .callback => utf8 "callback failed"

namespace Error

/-- The whole text, outermost context first. -/
def message : Error → Bytes
  | .fault f => f.message
  | .within c cause => c.message ++ utf8 ": " ++ cause.message
  | .report c cause => c.message ++ utf8 ": " ++ cause.message

/-- The kind of an error, as far as its contexts keep it. -/
def kind : Error → Kind
  | .fault (.kind k) => k
  | .fault _ => .other
  | .within _ cause => cause.kind
  | .report _ _ => .other

/-- The error that is nothing but its kind. -/
def ofKind (k : Kind) : Error := .fault (.kind k)

end Error

/-- How a computation ends: with a result, with an error, or aborted midway. -/
inductive Outcome (α : Type) where
  | ok (a : α)
  | error (e : Error)
  /-- The computation was cut off; the reason is known when the code gave one. -/
  | abort (reason : Option Bytes)

namespace Outcome

/-- The outcome of a computation that is never aborted. -/
def ofExcept {α : Type} : Except Error α → Outcome α
  | .ok a => .ok a
  | .error e => .error e

/-- Changes the result. -/
def map {α β : Type} (f : α → β) : Outcome α → Outcome β
  | .ok a => .ok (f a)
  | .error e => .error e
  | .abort r => .abort r

/-- Changes the error. -/
def mapError {α : Type} (f : Error → Error) : Outcome α → Outcome α
  | .ok a => .ok a
  | .error e => .error (f e)
  | .abort r => .abort r

end Outcome

end CounterLedger
