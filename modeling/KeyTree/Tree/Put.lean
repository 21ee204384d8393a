import KeyTree.Tree.Names
import KeyTree.Tree.Path
import KeyTree.Tree.Supply
import KeyTree.Value.Writing

/-!
# Putting a payload at a path

Segments stand for names only. Dictionaries that are missing on the way are made, and a leaf on the
way blocks. Everything off the path stays as it is.
-/

namespace KeyTree

/-- What putting a payload did to the tree. -/
inductive Outcome where
  /-- A node was appended, with its missing containers. -/
  | created
  /-- The payload of a node was replaced. -/
  | updated
  /-- The node held this payload before. -/
  | unchanged
  /-- A leaf stood on the way. -/
  | blocked
  deriving DecidableEq

namespace Outcome

def name : Outcome → String
  | created => "created"
  | updated => "updated"
  | unchanged => "unchanged"
  | blocked => "blocked"

def isChange : Outcome → Bool
  | created | updated => true
  | unchanged | blocked => false

/-- What a user is told about a key. -/
def acknowledgement (key : String) : Outcome → String
  | blocked => s!"Key \"{key}\" is blocked by an existing value"
  | created | updated | unchanged => s!"Updated key \"{key}\""

end Outcome

namespace Forest

/-- A new node at the end of a chain of new dictionaries. Each level takes the next identity. -/
def chain (supply : Supply) (payload : Payload Node) (head : String) : List String → Node
  | [] => ⟨supply.id, head, payload⟩
  | next :: rest =>
    ⟨supply.id, head, .branch .dictionary [chain (supply.skip 1) payload next rest]⟩

/-- Puts a payload where segments lead. -/
def putAlong (supply : Supply) (payload : Payload Node) (nodes : Forest) (head : String) :
    List String → Forest × Outcome
  | [] => match nodes.named? head with
    | none => (nodes ++ [chain supply payload head []], .created)
    | some n =>
      if n.payload.same payload then (nodes, .unchanged)
      else (replaceNamed head { n with payload := payload } nodes, .updated)
  | next :: rest => match nodes.named? head with
    | none => (nodes ++ [chain supply payload head (next :: rest)], .created)
    | some n => match n.children? with
      | none => (nodes, .blocked)
      | some children =>
        let (children, outcome) := putAlong (supply.skip 1) payload children next rest
        if outcome.isChange then (replaceNamed head (n.withChildren children) nodes, outcome)
        else (nodes, outcome)

/-- Puts a payload at a path. One identity is set apart for each segment. -/
def put (supply : Supply) (root : Forest) (path : Path) (payload : Payload Node) :
    Forest × Outcome × Supply :=
  let (root, outcome) := root.putAlong supply payload path.head path.tail
  (root, outcome, supply.skip path.segments.length)

/-- How many calls one inside the other put a payload where segments lead: one for each segment, up to
a leaf that blocks. -/
def putCalls (nodes : Forest) (head : String) : List String → Nat
  | [] => 1
  | next :: rest => match nodes.named? head with
    | none => rest.length + 2
    | some n => match n.children? with
      | none => 1
      | some children => putCalls children next rest + 1

/-- Puts a payload at a path, if the calls for it fit on the stack. -/
def boundedPut (supply : Supply) (root : Forest) (path : Path) (payload : Payload Node) :
    Except LimitFault (Forest × Outcome × Supply) :=
  if root.putCalls path.head path.tail ≤ callLimit then .ok (root.put supply path payload)
  else .error .tooDeep

end Forest

end KeyTree
