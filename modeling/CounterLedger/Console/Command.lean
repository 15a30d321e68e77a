/-
The commands of the console: the counter contract on a local ledger, operated from a command line.
-/
import CounterLedger.CommandLine.Draft

namespace CounterLedger.Console

open CommandLine

/-- What a command does. -/
inductive Task where
  | instantiate
  | increment
  | reset
  | count
  | version
deriving DecidableEq

/-- The name of the application. -/
def name : Bytes := utf8 "cwcounter"

/-- What the application is for. -/
def usage : Bytes := utf8 "operate the counter contract on a local ledger"

/-! ## Flags -/

/-- The path of the file with the settings. -/
def configFlag : Bytes := utf8 "config"

/-- The path of the database, which wins over the settings. -/
def databaseFlag : Bytes := utf8 "db"

/-- The identifier of the chain, which wins over the settings. -/
def chainFlag : Bytes := utf8 "chain"

/-- Whether the metrics are printed after the command. -/
def metricsFlag : Bytes := utf8 "metrics"

/-- The caller of a transition. -/
def senderFlag : Bytes := utf8 "sender"

/-- The initial count. -/
def counterFlag : Bytes := utf8 "counter"

/-- The new count. -/
def valueFlag : Bytes := utf8 "value"

/-- The flags that every command sees. -/
def globalFlags : List Flag :=
  [{ name := configFlag, usage := utf8 "path to the YAML configuration", value := .string [] },
   { name := databaseFlag, usage := utf8 "path to the database file", value := .string [] },
   { name := chainFlag, usage := utf8 "identifier of the chain", value := .string [] },
   { name := metricsFlag, usage := utf8 "print the prometheus metrics after the command", value := .bool false }]

/-- The flag for the caller. -/
def sender : Flag :=
  { name := senderFlag, usage := utf8 "address of the caller", required := true, value := .string [] }

/-- The flag for the initial count. -/
def counter : Flag :=
  { name := counterFlag, usage := utf8 "initial value of the counter", value := .word 0 }

/-- The flag for the new count. -/
def value : Flag :=
  { name := valueFlag, usage := utf8 "new value of the counter", value := .word 0 }

/-! ## Commands -/

/-- The draft of the commands. The handles are those of the declarations, in order. -/
def draft : List (Draft.Edit Task) :=
  [.setFlags Draft.root globalFlags,
   .declare Draft.root (utf8 "instantiate"),
   .describe 1 (utf8 "initialize the counter contract, the sender becomes the owner"),
   .setFlags 1 [sender, counter],
   .setAction 1 (some .instantiate),
   .declare Draft.root (utf8 "execute"),
   .describe 2 (utf8 "apply a transition to the counter"),
   .declare 2 (utf8 "increment"),
   .describe 3 (utf8 "add one to the counter"),
   .setFlags 3 [sender],
   .setAction 3 (some .increment),
   .declare 2 (utf8 "reset"),
   .describe 4 (utf8 "overwrite the counter, only allowed to the owner"),
   .setFlags 4 [sender, value],
   .setAction 4 (some .reset),
   .declare Draft.root (utf8 "query"),
   .describe 5 (utf8 "read the counter"),
   .declare 5 (utf8 "count"),
   .describe 6 (utf8 "print the current value of the counter"),
   .setAction 6 (some .count),
   .declare Draft.root (utf8 "version"),
   .describe 7 (utf8 "print the contract version stored at instantiation"),
   .setAction 7 (some .version)]

/-- The application. -/
def application : Application Task :=
  (Draft.ofEdits (.describe Draft.root usage :: draft)).build name

end CounterLedger.Console
