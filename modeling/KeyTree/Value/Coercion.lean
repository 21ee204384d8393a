import KeyTree.Number.Numeral
import KeyTree.Tree.Names
import KeyTree.Value.Raw

/-!
# Coercion

A raw value becomes the payload of a wanted kind, or is refused.
-/

namespace KeyTree

/-- Why an edit of the tree is refused. -/
inductive EditFault where
  | unknownKind (name : String)
  | notNumber (value : Raw)
  | notNodes (value : Raw)
  | blankName
  | container (kind : Kind) (name : String)

def EditFault.message : EditFault → String
  | unknownKind name => s!"Unknown node kind: {Text.quoted name}"
  | notNumber value => s!"Not a number: {value.quoted}"
  | notNodes value => s!"Container value must be a sequence of nodes: {value.quoted}"
  | blankName => "A name is required outside of a list"
  | container kind name => s!"Cannot edit the value of {kind.name} {Text.quoted name}"

namespace Coercion

/-- The number that a raw value stands for. -/
def number? : Raw → Option Float
  | .null => some 0
  | .boolean value => some (if value then 1 else 0)
  | .integer value => Quanta.ofInt? value
  | .number value => some value
  | .text value => Number.read? value
  | _ => none

/-- The truth value of a raw value. Of texts only the word for it is true. -/
def boolean : Raw → Bool
  | .text value => value == "true"
  | raw => raw.isTruthy

/-- The text of a raw value. -/
def text : Raw → String
  | .null => ""
  | raw => raw.plain

/-- The children that a raw value stands for. -/
def children? : Raw → Option Forest
  | .null => some []
  | .text value => if value.isEmpty then some [] else none
  | .list items => Raw.nodes? items
  | _ => none

/-- A branch of a shape. A dictionary has one child under each name. -/
def branch (shape : Shape) (children : Forest) : Payload Node :=
  match shape with
  | .dictionary => .branch .dictionary children.collapse
  | .list => .branch .list children

end Coercion

open Coercion in
/-- The payload of a kind that a raw value stands for. -/
def Kind.coerce (kind : Kind) (raw : Raw) : Except EditFault (Payload Node) :=
  match kind with
  | text => .ok (.leaf (.text (Coercion.text raw)))
  | expression => .ok (.leaf (.expression (Coercion.text raw)))
  | boolean => .ok (.leaf (.boolean (Coercion.boolean raw)))
  | number => match number? raw with
    | some x => .ok (.leaf (.number x))
    | none => .error (.notNumber raw)
  | dictionary => match children? raw with
    | some children => .ok (branch .dictionary children)
    | none => .error (.notNodes raw)
  | list => match children? raw with
    | some children => .ok (branch .list children)
    | none => .error (.notNodes raw)

/-- The payload of a named kind that a raw value stands for. -/
def coerce (kindName : String) (raw : Raw) : Except EditFault (Payload Node) :=
  match Kind.ofName? kindName with
  | some kind => kind.coerce raw
  | none => .error (.unknownKind kindName)

end KeyTree
