import KeyTree.Formula.Evaluation
import KeyTree.Text.Markup

/-!
# Listings

A listing shows a tree line by line under a title. Guides before each label lead to the label above
it. A label of several lines goes on below itself, and each label is markup until it is drawn.
-/

namespace KeyTree

/-- A label in markup, and the outlines below it. -/
inductive Outline where
  | item (label : List Char) (below : List Outline)

namespace Listing

/-- What stands before a label's first line, and before everything below that line. -/
structure Guide where
  first : List Char
  further : List Char
  deriving DecidableEq

/-- The guide of the last label below another one, or of an earlier one. -/
def guide (isLast : Bool) : Guide :=
  if isLast then ⟨['└', '─', '─', ' '], [' ', ' ', ' ', ' ']⟩
  else ⟨['├', '─', '─', ' '], ['│', ' ', ' ', ' ']⟩

/-- The lines of a label behind what leads to it. -/
def labelLines (first further label : List Char) : List (List Char) :=
  let (line, more) := Text.fields '\n' (Text.Markup.render label)
  (first ++ line) :: more.map (further ++ ·)

mutual

/-- The lines of an outline behind the guides of those around it. -/
def lines (lead : List Char) (isLast : Bool) : Outline → List (List Char)
  | .item label below =>
    let further := lead ++ (guide isLast).further
    labelLines (lead ++ (guide isLast).first) further label ++ linesBelow further below

/-- The lines of outlines side by side. -/
def linesBelow (lead : List Char) : List Outline → List (List Char)
  | [] => []
  | outline :: rest => lines lead rest.isEmpty outline ++ linesBelow lead rest

end

/-- A drawn outline, each line with a line feed. The outline itself has no guides. -/
def draw : Outline → List Char
  | .item label below =>
    (labelLines [] [] label ++ linesBelow [] below).flatMap fun line ↦ line ++ ['\n']

/-! ## Labels -/

/-- The style of a kind's names. -/
def style : Kind → String
  | .text => "white"
  | .number => "cyan"
  | .boolean => "yellow"
  | .dictionary | .list => "blue"
  | .expression => "magenta"

/-- Markup in a style. -/
def styled (style : String) (markup : List Char) : List Char :=
  '[' :: style.toList ++ ']' :: markup ++ ['[', '/', ']']

def escaped (text : String) : List Char := Text.Markup.escape text.toList

/-- The label of a leaf: its name and what is shown for it, and for a formula the formula too. -/
def leafLabel (name : String) (value : Leaf) (shown : String) : List Char :=
  let label := styled (style value.kind) (escaped name) ++ [' ', '=', ' '] ++ escaped shown
  match value with
  | .expression formula => label ++ ' ' :: styled "dim" (escaped formula)
  | _ => label

/-- The label of a container: its name, its kind and how much it holds. -/
def branchLabel (name : String) (shape : Shape) (count : Nat) : List Char :=
  styled ("bold " ++ style shape.kind) (escaped name) ++
    ' ' :: styled "dim" s!"({shape.kind.name}, {count} items)".toList

/-- The label above a listing. -/
def titleLabel (title : String) : List Char := styled "bold" (escaped title)

mutual

/-- The outline of a node. -/
def ofNode (cache : Arithmetic.Cache) (root : Forest) :
    Node → Except EvaluationFault Outline × Arithmetic.Cache
  | ⟨id, name, .leaf value⟩ =>
    let (shown, cache) := Node.display cache root ⟨id, name, .leaf value⟩
    (shown.map fun text ↦ .item (leafLabel name value text) [], cache)
  | ⟨_, name, .branch shape children⟩ =>
    let (below, cache) := ofForest cache root children
    (below.map (.item (branchLabel name shape children.length)), cache)

/-- The outlines of siblings, up to the first that has none. -/
def ofForest (cache : Arithmetic.Cache) (root : Forest) :
    List Node → Except EvaluationFault (List Outline) × Arithmetic.Cache
  | [] => (.ok [], cache)
  | n :: ns => match ofNode cache root n with
    | (.error fault, cache) => (.error fault, cache)
    | (.ok first, cache) =>
      let (rest, cache) := ofForest cache root ns
      (rest.map (first :: ·), cache)

end

/-- The listing of some nodes of a tree under a title. -/
def text (cache : Arithmetic.Cache) (root : Forest) (title : String) (nodes : Forest) :
    Except EvaluationFault String × Arithmetic.Cache :=
  let (below, cache) := ofForest cache root nodes
  (below.map fun below ↦ String.ofList (draw (.item (titleLabel title) below)), cache)

end Listing

end KeyTree
