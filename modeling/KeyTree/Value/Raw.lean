import KeyTree.Number.Written
import KeyTree.Ordered
import KeyTree.Text.Quoted
import KeyTree.Tree.Node

/-!
# Raw values

A raw value comes from outside and has not been given a kind. It may hold nodes. Raw values have two
texts: the plain one, and the quoted one that messages use and that stands inside other values.
-/

namespace KeyTree

/-- The keys of raw dictionaries. -/
inductive Key where
  | null
  | boolean (value : Bool)
  | integer (value : Int)
  | number (value : Float)
  | text (value : String)
  deriving DecidableEq

inductive Raw where
  | null
  | boolean (value : Bool)
  | integer (value : Int)
  | number (value : Float)
  | text (value : String)
  | list (items : List Raw)
  | dictionary (entries : List (Key × Raw))
  | node (value : Node)

namespace Key

/-- A key that is a whole number, truth values being 1 and 0. -/
def integer? : Key → Option Int
  | boolean value => some (if value then 1 else 0)
  | integer value => some value
  | number value => Quanta.integer? value
  | _ => none

/-- Keys that name the same entry: numbers and truth values of the same amount do. -/
def same (a b : Key) : Bool :=
  match a.integer?, b.integer? with
  | some i, some j => i == j
  | none, none => match a, b with
    | number x, number y => x == y
    | a, b => a == b
  | _, _ => false

instance : BEq Key := ⟨same⟩

def quoted : Key → String
  | null => "None"
  | boolean value => if value then "True" else "False"
  | integer value => toString value
  | number value => Layout.plain.text value
  | text value => Text.quoted value

/-- The name that an entry gives to a node. -/
def name : Key → String
  | text value => value
  | key => key.quoted

end Key

def Leaf.quoted : Leaf → String
  | text value => s!"Text(value={Text.quoted value})"
  | number value => s!"Number(value={Layout.plain.text value})"
  | boolean value => s!"Boolean(value={Key.quoted (.boolean value)})"
  | expression formula => s!"Expression(formula={Text.quoted formula})"

def Shape.title : Shape → String
  | dictionary => "Dictionary"
  | list => "List"

/-- Items between parentheses; a comma follows an item that is alone. -/
def tupleText : List String → String
  | [item] => "(" ++ item ++ ",)"
  | items => "(" ++ String.intercalate ", " items ++ ")"

mutual

/-- A node as messages show it. -/
def Node.quoted : Node → String
  | ⟨id, name, .leaf value⟩ =>
    s!"Node(name={Text.quoted name}, payload={value.quoted}, id={Text.quoted id})"
  | ⟨id, name, .branch shape children⟩ =>
    s!"Node(name={Text.quoted name}, payload={shape.title}(children=" ++
      tupleText (Forest.quotedAll children) ++ s!"), id={Text.quoted id})"

def Forest.quotedAll : List Node → List String
  | [] => []
  | n :: ns => n.quoted :: Forest.quotedAll ns

end

namespace Raw

mutual

/-- A raw value as messages show it. -/
def quoted : Raw → String
  | null => "None"
  | boolean value => if value then "True" else "False"
  | integer value => toString value
  | number value => Layout.plain.text value
  | text value => Text.quoted value
  | list items => "[" ++ String.intercalate ", " (quotedItems items) ++ "]"
  | dictionary entries => "\x7b" ++ String.intercalate ", " (quotedEntries entries) ++ "\x7d"
  | node value => value.quoted

def quotedItems : List Raw → List String
  | [] => []
  | item :: rest => item.quoted :: quotedItems rest

def quotedEntries : List (Key × Raw) → List String
  | [] => []
  | (key, value) :: rest => (key.quoted ++ ": " ++ value.quoted) :: quotedEntries rest

end

/-- The text of a value on its own. -/
def plain : Raw → String
  | text value => value
  | raw => raw.quoted

/-- Whether a value counts as true: everything but nothing, zero and what is empty. -/
def isTruthy : Raw → Bool
  | null => false
  | boolean value => value
  | integer value => value != 0
  | number value => !(value == 0)
  | text value => !value.isEmpty
  | list items => !items.isEmpty
  | dictionary entries => !entries.isEmpty
  | node _ => true

/-- The word for the type of a value. -/
def typeName : Raw → String
  | null => "NoneType"
  | boolean _ => "bool"
  | integer _ => "int"
  | number _ => "float"
  | text _ => "str"
  | list _ => "list"
  | dictionary _ => "dict"
  | node _ => "Node"

/-- The nodes of a list that holds nothing else. -/
def nodes? : List Raw → Option Forest
  | [] => some []
  | node value :: rest => (nodes? rest).map (value :: ·)
  | _ :: _ => none

/-- How deep lists and dictionaries nest. -/
def depth : Raw → Nat
  | list items => depthItems items + 1
  | dictionary entries => depthEntries entries + 1
  | _ => 0
where
  depthItems : List Raw → Nat
    | [] => 0
    | item :: rest => max item.depth (depthItems rest)
  depthEntries : List (Key × Raw) → Nat
    | [] => 0
    | (_, value) :: rest => max value.depth (depthEntries rest)

end Raw

end KeyTree
