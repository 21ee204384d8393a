import KeyTree.Ordered
import KeyTree.Tree.Node

/-!
# Siblings by name

A dictionary has one child under each name. Building one from any siblings keeps the place of the
first node of a name and the content of the last.
-/

namespace KeyTree.Forest

/-- The first sibling of a name. -/
def named? (nodes : Forest) (name : String) : Option Node :=
  nodes.find? fun n ↦ n.name == name

/-- Another node in place of the first one of a name. -/
def replaceNamed (name : String) (new : Node) : List Node → List Node
  | [] => []
  | n :: ns => if n.name == name then new :: ns else n :: replaceNamed name new ns

/-- A node in place of the first one of its name, or at the end if there is none. -/
def putNamed (new : Node) : List Node → List Node
  | [] => [new]
  | n :: ns => if n.name == new.name then new :: ns else n :: putNamed new ns

/-- One node for each name: the last one, in the place of the first. -/
def collapse (nodes : Forest) : Forest :=
  (Ordered.ofList (nodes.map fun n ↦ (n.name, n))).map (·.2)

/-- The names that siblings get by their positions. -/
def positionName (index : Nat) : String := toString index

end KeyTree.Forest
