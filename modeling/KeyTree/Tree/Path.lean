import KeyTree.Text.Fields
import KeyTree.Text.Quoted

/-!
# Dotted paths

A path is one or more segments with points between them. A segment is one or more letters, digits and
underscores.
-/

namespace KeyTree

structure Path where
  head : String
  tail : List String
  deriving DecidableEq

/-- A text that is no path, and its first bad segment. -/
structure PathFault where
  path : String
  segment : String
  deriving DecidableEq

def PathFault.message (e : PathFault) : String :=
  s!"Invalid path {Text.quoted e.path}: bad segment {Text.quoted e.segment}"

namespace Path

def segments (p : Path) : List String := p.head :: p.tail

def isSegmentChar (c : Char) : Bool := c.isAlphanum || c == '_'

def isSegment (s : List Char) : Bool := !s.isEmpty && s.all isSegmentChar

/-- The path that a text spells. -/
def parse (text : String) : Except PathFault Path :=
  let (head, tail) := Text.fields '.' text.toList
  match (head :: tail).find? fun segment ↦ !isSegment segment with
  | some segment => .error ⟨text, String.ofList segment⟩
  | none => .ok ⟨String.ofList head, tail.map String.ofList⟩

/-- What stands before the last point of a text: the container's path, if the text is a path. -/
def containerText (text : String) : String :=
  String.ofList (Text.joined ['.'] (Text.fieldList '.' text.toList).dropLast)

end Path

end KeyTree
