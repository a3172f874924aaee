import TypedModels.Yaml.Escape

/-!
# Nodes of a YAML text

A text holds a graph of nodes: a node with an anchor is the target of the aliases that name it. An
anchor is numbered by how many different names there are before it, and an alias keeps the number
of its name. So a name that is taken again shares its number with the next new name; of several
nodes with one number the last is the target.

## Main definitions

* `Yaml.Node` : scalars, collections and aliases.
* `Yaml.Anchors` : the anchors up to a place of a text.
* `Yaml.Graph` : the nodes of a text.
-/

namespace TypedModels.Yaml

inductive Node where
  | scalar (text : String) (plain : Bool) (tag : Option Octets)
  | sequence (tag : Option Octets) (items : List Node)
  | mapping (tag : Option Octets) (entries : List (Node × Node))
  /-- Another mention of the node whose anchor has the number. -/
  | alias (number : Nat)
deriving Repr, Inhabited

namespace Node

/-- The node in a place where none is written. -/
def absent : Node := .scalar "" true none

/-- How many events it takes to tell of a node without its parts: one, or a start and an end. -/
def weight : Node → Nat
  | .scalar _ _ _ | .alias _ => 1
  | .sequence _ _ | .mapping _ _ => 2

end Node

/-! ## Anchors -/

/-- The anchors up to a place of a text. -/
structure Anchors where
  /-- The number of each name. -/
  numbers : List (String × Nat) := []
  /-- The number of each anchored node, last nodes first, with its rank among them. -/
  holders : List (Nat × Nat) := []
  /-- The nodes that are complete, by rank. -/
  nodes : List (Nat × Node) := []
deriving Inhabited

namespace Anchors

/-- Gives a name to the next anchored node, whose rank is returned. -/
def declare (name : String) (a : Anchors) : Anchors × Nat :=
  let number := a.numbers.length
  let rank := a.holders.length
  ({ a with
      numbers := (name, number) :: a.numbers.filter (·.1 ≠ name)
      holders := (number, rank) :: a.holders }, rank)

/-- Keeps a complete node if it has a rank. -/
def keep (rank : Option Nat) (node : Node) (a : Anchors) : Anchors :=
  match rank with
  | some rank => { a with nodes := (rank, node) :: a.nodes }
  | none => a

def number? (name : String) (a : Anchors) : Option Nat := a.numbers.lookup name

/-- The last node whose anchor has the number. -/
def target? (number : Nat) (a : Anchors) : Option Node := do
  a.nodes.lookup (← a.holders.lookup number)

/-- An alias means the node that was given its name last. -/
theorem number?_declare (name : String) (a : Anchors) :
    ((a.declare name).1.number? name).bind (fun n => List.lookup n (a.declare name).1.holders) =
      some (a.declare name).2 := by
  simp [declare, number?]

end Anchors

/-! ## Graphs -/

/-- The nodes of a text. -/
structure Graph where
  /-- The outermost node, unless the text is empty. -/
  root : Option Node
  anchors : Anchors
  /-- How many events it takes to tell of all nodes. -/
  weight : Nat

end TypedModels.Yaml
