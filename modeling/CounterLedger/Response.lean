/-
What an invocation sees and returns: the environment given by the host, and the response with its
attributes and an optional payload.
-/
import CounterLedger.Address

namespace CounterLedger

/-- The ledger at the time of an invocation. -/
structure Env where
  chain : Bytes
  height : UInt64
  /-- The time of the block, in seconds. -/
  time : Int
deriving DecidableEq

/-- The outcome of a successful state-changing invocation. -/
structure Response where
  attributes : List (Bytes × Bytes) := []
  data : Payload := none
deriving DecidableEq

namespace Response

/-- The response with an attribute appended. -/
def addAttribute (r : Response) (key value : Bytes) : Response :=
  { r with attributes := r.attributes ++ [(key, value)] }

/-- The value of the first attribute with the key, or the empty text. -/
def findAttribute (r : Response) (key : Bytes) : Bytes :=
  match r.attributes.find? (fun a => a.1 = key) with
  | some a => a.2
  | none => []

end Response

end CounterLedger
