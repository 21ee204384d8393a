import KeyTree.Number.Whole
import KeyTree.Tree.Names
import KeyTree.Tree.Path

/-!
# Looking up paths

A segment stands for the first sibling of that name, or else, if it consists of digits, for the
sibling at that position. A miss is no error. The identities of the containers on the way to a
container are its scope.
-/

namespace KeyTree

/-- The identities of containers from the root down. The empty scope is the root itself. -/
abbrev Scope := List String

namespace Forest

/-- The child that a segment stands for. -/
def child? (nodes : Forest) (segment : String) (positional : Bool) :
    Except TooManyDigits (Option Node) :=
  match nodes.named? segment with
  | some n => .ok (some n)
  | none =>
    let digits := segment.toList
    if positional && !digits.isEmpty && digits.all Text.isDigit then
      (Whole.read digits).map (nodes[·]?)
    else .ok none

/-- The node that segments lead to. -/
def follow? (nodes : Forest) (head : String) : List String → Except TooManyDigits (Option Node)
  | [] => nodes.child? head true
  | next :: rest => do
    match (← nodes.child? head true).bind Node.children? with
    | none => .ok none
    | some children => follow? children next rest

/-- The node that a path leads to. A text that is no path leads nowhere. -/
def lookup? (root : Forest) (path : String) : Except TooManyDigits (Option Node) :=
  match Path.parse path with
  | .error _ => .ok none
  | .ok p => root.follow? p.head p.tail

/-- The identities of the containers that segments lead through, if all are containers. -/
def scopeAlong? (nodes : Forest) : List String → Except TooManyDigits (Option Scope)
  | [] => .ok (some [])
  | segment :: rest => do
    match ← nodes.child? segment true with
    | none => .ok none
    | some n => match n.children? with
      | none => .ok none
      | some children => return (← scopeAlong? children rest).map (n.id :: ·)

/-- The scope of the container that a path leads to. The empty path leads to the root. -/
def scopeOf? (root : Forest) (path : String) : Except TooManyDigits (Option Scope) :=
  if path.isEmpty then .ok (some [])
  else match Path.parse path with
    | .error _ => .ok none
    | .ok p => root.scopeAlong? p.segments

end Forest

end KeyTree
