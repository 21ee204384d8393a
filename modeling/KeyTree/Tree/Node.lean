/-!
# Nodes

A tree is an ordered sequence of nodes. A node has an identity, a name and a payload, which is a leaf
value or a branch of child nodes. The payload alone decides the kind of a node. Two trees are the
same if they agree in everything but the identities.
-/

namespace KeyTree

/-- The values that a node without children can hold. -/
inductive Leaf where
  | text (value : String)
  | number (value : Float)
  | boolean (value : Bool)
  /-- A formula, which is evaluated when it is shown. -/
  | expression (formula : String)
  deriving DecidableEq

/-- The two ways of holding children: addressed by name, or by position. -/
inductive Shape where
  | dictionary
  | list
  deriving DecidableEq

inductive Payload (α : Type) where
  | leaf (value : Leaf)
  | branch (shape : Shape) (children : List α)
  deriving DecidableEq

structure Node where
  id : String
  name : String
  payload : Payload Node

/-- A sequence of siblings. -/
abbrev Forest := List Node

/-- What a node holds, without the content. -/
inductive Kind where
  | text
  | number
  | boolean
  | dictionary
  | list
  | expression
  deriving DecidableEq

namespace Kind

def all : List Kind := [text, number, boolean, dictionary, list, expression]

def name : Kind → String
  | text => "text"
  | number => "number"
  | boolean => "boolean"
  | dictionary => "dictionary"
  | list => "list"
  | expression => "expression"

def ofName? (s : String) : Option Kind := all.find? fun kind ↦ kind.name == s

def shape? : Kind → Option Shape
  | dictionary => some .dictionary
  | list => some .list
  | _ => none

end Kind

def Leaf.kind : Leaf → Kind
  | text _ => .text
  | number _ => .number
  | boolean _ => .boolean
  | expression _ => .expression

/-- Equal values; numbers are compared as numbers, so the two zeros are the same. -/
def Leaf.same : Leaf → Leaf → Bool
  | text a, text b => a == b
  | number a, number b => a == b
  | boolean a, boolean b => a == b
  | expression a, expression b => a == b
  | _, _ => false

def Shape.kind : Shape → Kind
  | dictionary => .dictionary
  | list => .list

namespace Payload

variable {α : Type}

def kind : Payload α → Kind
  | leaf value => value.kind
  | branch shape _ => shape.kind

def children? : Payload α → Option (List α)
  | leaf _ => none
  | branch _ children => some children

/-- Other children in the same shape. A leaf has none to exchange. -/
def withChildren (children : List α) : Payload α → Payload α
  | leaf value => leaf value
  | branch shape _ => branch shape children

end Payload

namespace Node

def kind (n : Node) : Kind := n.payload.kind

def children? (n : Node) : Option Forest := n.payload.children?

def isContainer (n : Node) : Bool := n.children?.isSome

def withChildren (n : Node) (children : Forest) : Node :=
  { n with payload := n.payload.withChildren children }

end Node

mutual

/-- Equality of nodes up to identities. -/
def Node.same : Node → Node → Bool
  | ⟨_, a, .leaf v⟩, ⟨_, b, .leaf w⟩ => a == b && v.same w
  | ⟨_, a, .branch s cs⟩, ⟨_, b, .branch t ds⟩ => a == b && s == t && Forest.same cs ds
  | _, _ => false

/-- Equality of siblings, in order, up to identities. -/
def Forest.same : List Node → List Node → Bool
  | [], [] => true
  | n :: ns, m :: ms => n.same m && Forest.same ns ms
  | _, _ => false

end

/-- Equality of payloads up to identities. -/
def Payload.same : Payload Node → Payload Node → Bool
  | .leaf v, .leaf w => v.same w
  | .branch s cs, .branch t ds => s == t && Forest.same cs ds
  | _, _ => false

mutual

/-- The identities in a node, from the top down and in order. -/
def Node.ids : Node → List String
  | ⟨id, _, .leaf _⟩ => [id]
  | ⟨id, _, .branch _ children⟩ => id :: Forest.ids children

def Forest.ids : List Node → List String
  | [] => []
  | n :: ns => n.ids ++ Forest.ids ns

end

mutual

/-- How many nodes stand below each other. -/
def Node.height : Node → Nat
  | ⟨_, _, .leaf _⟩ => 1
  | ⟨_, _, .branch _ children⟩ => Forest.height children + 1

def Forest.height : List Node → Nat
  | [] => 0
  | n :: ns => max n.height (Forest.height ns)

end

end KeyTree
