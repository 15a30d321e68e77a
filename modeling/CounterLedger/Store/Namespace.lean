/-
Namespaces. Several contracts share one store: each key is replaced by the digest of the namespace
and the key, both preceded by their length, so that a contract only reaches its own keys.
-/
import CounterLedger.Sha256
import CounterLedger.Store.Program

namespace CounterLedger

namespace Namespace

/-- A byte string behind its length, of which the two low bytes are written. -/
def framed (s : Bytes) : Bytes := Bytes.littleEndian 2 s.length ++ s

/-- The bytes that are digested for a key of a namespace. -/
def layout (space key : Bytes) : Bytes := framed space ++ framed key

/-- The key in the shared store of a key of a namespace. -/
def key (space key : Bytes) : Bytes := Sha256.digest (layout space key)

end Namespace

/-- The computation with all its keys moved into a namespace. -/
def Reading.scoped {α : Type} (space : Bytes) : Reading α → Reading α
  | .done o => .done o
  | .get k next => .get (Namespace.key space k) fun v => (next v).scoped space

/-- The program with all its keys moved into a namespace. -/
def Program.scoped {α : Type} (space : Bytes) : Program α → Program α
  | .done o => .done o
  | .get k next => .get (Namespace.key space k) fun v => (next v).scoped space
  | .set k v next => .set (Namespace.key space k) v fun r => (next r).scoped space
  | .delete k next => .delete (Namespace.key space k) fun r => (next r).scoped space
  | .log e next => .log e (next.scoped space)

end CounterLedger
