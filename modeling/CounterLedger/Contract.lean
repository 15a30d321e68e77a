/-
Contracts as the service sees them: three entry points that take encoded messages. The two that
change state are programs on the storage they are given, and a query only reads it.
-/
import CounterLedger.Response
import CounterLedger.Store.Program

namespace CounterLedger

/-- A contract. -/
structure Contract where
  instantiate : Env → Address → Payload → Program Response
  execute : Env → Address → Payload → Program Response
  query : Env → Payload → Reading Payload

/-- The entry points of a contract. -/
inductive Entry where
  | instantiate
  | execute
  | query
deriving DecidableEq

/-- The word of an entry point. -/
def Entry.name : Entry → Bytes
  | .instantiate => utf8 "instantiate"
  | .execute => utf8 "execute"
  | .query => utf8 "query"

end CounterLedger
