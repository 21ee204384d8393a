import KeyTree.Document.Export
import KeyTree.Tree.Lookup

/-!
# References in formulas

A reference is a path between two pairs of braces. The references of a formula are found from left to
right, and each gives way to the text of the node it leads to. That text is not searched again.
-/

namespace KeyTree

/-- The text of a leaf in a formula. -/
def Leaf.rendered : Leaf → String
  | .text value => value
  | .number value => Number.shown value
  | .boolean value => if value then "true" else "false"
  | .expression formula => formula

/-- The text that a node puts in the place of a reference. A container gives its document. -/
def Node.rendered (n : Node) : String :=
  match n.payload with
  | .leaf value => value.rendered
  | .branch _ _ => n.toJson.text .compact

/-- Whether the calls that make this text fit on the stack. -/
def Node.isRenderable (n : Node) : Bool := n.exportCalls ≤ callLimit

namespace Formula

/-- A part of a formula: a character that stands for itself, or a reference. -/
inductive Piece where
  | char (c : Char)
  | reference (path : List Char)
  deriving DecidableEq

def isReferenceChar (c : Char) : Bool := c.isAlphanum || c == '_' || c == '.'

/-- The reference at the start of a text, and what follows it. -/
def scanReference? : List Char → Option (List Char × List Char)
  | '{' :: '{' :: rest =>
    let path := rest.takeWhile isReferenceChar
    match path.isEmpty, rest.dropWhile isReferenceChar with
    | false, '}' :: '}' :: after => some (path, after)
    | _, _ => none
  | _ => none

theorem length_lt_of_scanReference? {s path after : List Char}
    (h : scanReference? s = some (path, after)) : after.length < s.length := by
  unfold scanReference? at h
  split at h
  · rename_i rest
    dsimp only at h
    split at h
    · rename_i tail _ closing
      obtain ⟨-, rfl⟩ : _ ∧ _ := by simpa using h
      have shorter := (List.dropWhile_suffix (l := rest) isReferenceChar).length_le
      rw [closing] at shorter
      simp only [List.length_cons] at shorter ⊢
      omega
    · simp at h
  · simp at h

/-- The pieces of a formula, in order. -/
def pieces (s : List Char) : List Piece :=
  match s with
  | [] => []
  | c :: rest => match h : scanReference? (c :: rest) with
    | some (path, after) =>
      have : after.length < (c :: rest).length := length_lt_of_scanReference? h
      .reference path :: pieces after
    | none => .char c :: pieces rest
termination_by s.length
decreasing_by
  · exact this
  · exact Nat.lt_add_one _

/-- Why a formula cannot be filled in. -/
inductive FillFault where
  /-- A path leads nowhere. -/
  | missing (path : String)
  | tooManyDigits (fault : TooManyDigits)
  /-- A container nests too deeply to become a text. -/
  | tooDeep
  deriving DecidableEq

/-- The text of a piece. -/
def Piece.fill (root : Forest) : Piece → Except FillFault (List Char)
  | char c => .ok [c]
  | reference path => match root.lookup? (String.ofList path) with
    | .error fault => .error (.tooManyDigits fault)
    | .ok none => .error (.missing (String.ofList path))
    | .ok (some n) => if n.isRenderable then .ok n.rendered.toList else .error .tooDeep

/-- A formula with its references filled in, up to the first that has no text. -/
def fill (root : Forest) (formula : List Piece) : Except FillFault (List Char) :=
  List.flatten <$> formula.mapM (Piece.fill root)

def Piece.isReference : Piece → Bool
  | reference _ => true
  | char _ => false

end Formula

end KeyTree
