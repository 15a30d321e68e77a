/-
Nodes of YAML: scalars, sequences and mappings, each with the line on which it starts. An alias
stands for the node with some anchor, which may be a node around it, so it refers to that by number.
-/
import CounterLedger.Bytes

namespace CounterLedger.Yaml

/-- A node of a document. -/
inductive Node where
  /-- A scalar with its tag, which is empty when none is written. It is implicit when its text alone
  tells what it stands for. -/
  | scalar (line : Nat) (text tag : Bytes) (implicit : Bool)
  | sequence (line : Nat) (items : List Node)
  | mapping (line : Nat) (entries : List (Node × Node))
  /-- An alias of the anchored node with a number. Aliases are numbered, too. -/
  | alias (line serial target : Nat)

namespace Node

/-- The node that stands where nothing is written. -/
def nothing (line : Nat) : Node := .scalar line [] [] true

instance : Inhabited Node := ⟨nothing 0⟩

/-- The line on which a node starts. -/
def line : Node → Nat
  | .scalar line _ _ _ => line
  | .sequence line _ => line
  | .mapping line _ => line
  | .alias line _ _ => line

mutual

/-- How deep a node goes. -/
def height : Node → Nat
  | .scalar _ _ _ _ => 0
  | .sequence _ items => itemsHeight items + 1
  | .mapping _ entries => entriesHeight entries + 1
  | .alias _ _ _ => 0

/-- How deep the deepest of some items goes. -/
def itemsHeight : List Node → Nat
  | [] => 0
  | n :: rest => max n.height (itemsHeight rest)

/-- How deep the deepest key or value of some entries goes. -/
def entriesHeight : List (Node × Node) → Nat
  | [] => 0
  | (k, v) :: rest => max (max k.height v.height) (entriesHeight rest)

end

end Node

/-- A document: its root, the anchored nodes by number, and the number of aliases. -/
structure Document where
  root : Node
  anchored : Array Node := #[]
  aliases : Nat := 0

end CounterLedger.Yaml
