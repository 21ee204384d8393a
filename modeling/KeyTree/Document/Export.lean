import KeyTree.Json.Writer
import KeyTree.Nesting
import KeyTree.Tree.Names

/-!
# Plain JSON documents of trees

A document holds the names and values of a tree and nothing else: identities and the names within
lists are left out, formulas are texts, and numbers that are not finite are null.
-/

namespace KeyTree

/-- A number in a document. A number without a fraction is whole there. -/
def Number.toJson (x : Float) : Json :=
  match Quanta.integer? x with
  | some i => .integer i
  | none => if x.isFinite then .number x else .null

def Leaf.toJson : Leaf → Json
  | text value => .string value
  | number value => Number.toJson value
  | boolean value => .boolean value
  | expression formula => .string formula

mutual

/-- The value of a node in a document. -/
def Node.toJson : Node → Json
  | ⟨_, _, .leaf value⟩ => value.toJson
  | ⟨_, _, .branch .dictionary children⟩ => .object (Ordered.ofList (Forest.members children))
  | ⟨_, _, .branch .list children⟩ => .array (Forest.items children)

/-- The names and values of siblings. -/
def Forest.members : List Node → List (String × Json)
  | [] => []
  | n :: ns => (n.name, n.toJson) :: Forest.members ns

/-- The values of siblings. -/
def Forest.items : List Node → List Json
  | [] => []
  | n :: ns => n.toJson :: Forest.items ns

end

mutual

/-- How many calls one inside the other make the value of a node: three for each dictionary and two
for each list around another value. -/
def Node.exportCalls : Node → Nat
  | ⟨_, _, .leaf _⟩ => 1
  | ⟨_, _, .branch .dictionary children⟩ => Forest.exportCalls children + 3
  | ⟨_, _, .branch .list children⟩ => Forest.exportCalls children + 2

def Forest.exportCalls : List Node → Nat
  | [] => 0
  | n :: ns => max n.exportCalls (Forest.exportCalls ns)

end

namespace Forest

/-- The document of a tree. -/
def toJson (root : Forest) : Json := .object (Ordered.ofList (members root))

/-- The document's text, indented or on one line. A width below zero counts as zero. -/
def exportText (root : Forest) (indent : Option Int) : String :=
  match indent with
  | none => root.toJson.text (.line false)
  | some width => root.toJson.text (.indented width.toNat)

/-- Whether the calls that make the document of a tree fit on the stack. -/
def isExportable (root : Forest) : Bool := exportCalls root + 2 ≤ callLimit

end Forest

end KeyTree
