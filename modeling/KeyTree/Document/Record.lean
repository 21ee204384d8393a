import KeyTree.Document.Export
import KeyTree.Json.Reader
import KeyTree.Value.Coercion

/-!
# Records

A record keeps a node as it is: its identity, name, kind and value, where the value of a container is
the list of the records of its children. Reading the records of a tree gives the tree back.
-/

namespace KeyTree

/-- Why a document holds no records of nodes. -/
inductive RecordFault where
  | notList (typeName : String)
  | malformed (record : Raw)
  | unknownType (type : Raw)
  | noChildList (name : Raw)
  | badValue (fault : EditFault)
  | unreadable (fault : Json.ReadFault)
  | tooDeep

namespace RecordFault

def message : RecordFault → String
  | notList typeName => s!"Persisted jar must be a list of nodes, got {typeName}"
  | malformed record => s!"Malformed node record: {record.quoted}"
  | unknownType type => s!"Unknown node type: {type.quoted}"
  | noChildList name => s!"Container {name.quoted} has no child list"
  | badValue fault => fault.message
  | unreadable fault => s!"Invalid JSON: {fault.message}"
  | tooDeep => "Persisted jar is nested too deeply"

def ofRead : Json.ReadFault → RecordFault
  | .tooDeep => tooDeep
  | fault => unreadable fault

end RecordFault

/-! ## Writing -/

/-- The value of a leaf in a record. Unlike in a plain document, numbers that are not finite stay. -/
def Leaf.toRecordValue : Leaf → Json
  | number value => if value.isFinite then Number.toJson value else .number value
  | leaf => leaf.toJson

/-- The record of a node with a given value. -/
def Node.recordWith (n : Node) (value : Json) : Json :=
  .object [("id", .string n.id), ("name", .string n.name), ("type", .string n.kind.name),
    ("value", value)]

mutual

def Node.toRecord : Node → Json
  | ⟨id, name, .leaf value⟩ => Node.recordWith ⟨id, name, .leaf value⟩ value.toRecordValue
  | ⟨id, name, .branch shape children⟩ =>
    Node.recordWith ⟨id, name, .branch shape children⟩ (.array (Forest.recordItems children))

def Forest.recordItems : List Node → List Json
  | [] => []
  | n :: ns => n.toRecord :: Forest.recordItems ns

end

namespace Forest

/-- The records of a tree. -/
def toRecords (root : Forest) : Json := .array (recordItems root)

/-- The text of the records of a tree. -/
def recordText (root : Forest) : String := root.toRecords.text (.line false)

end Forest

/-! ## Reading -/

namespace Raw

/-- The four fields of a record. -/
structure Fields where
  id : Raw
  name : Raw
  type : Raw
  value : Raw

def fields? : Raw → Option Fields
  | dictionary entries => do
    let id ← Ordered.get? (.text "id") entries
    let name ← Ordered.get? (.text "name") entries
    let type ← Ordered.get? (.text "type") entries
    let value ← Ordered.get? (.text "value") entries
    some ⟨id, name, type, value⟩
  | _ => none

/-- The kind that a raw value names. -/
def kind? : Raw → Option Kind
  | text name => Kind.ofName? name
  | _ => none

/-- The node of a record. `room` is how deep records may nest. -/
def recordToNode : Nat → Raw → Except RecordFault Node
  | 0, _ => .error .tooDeep
  | room + 1, record => do
    let some fields := record.fields? | throw (.malformed record)
    let some kind := fields.type.kind? | throw (.unknownType fields.type)
    let payload ← match kind.shape? with
      | some shape => match fields.value with
        | list items => do
          let children ← items.mapM (recordToNode room)
          pure (Coercion.branch shape children)
        | _ => throw (.noChildList fields.name)
      | none => (kind.coerce fields.value).mapError .badValue
    return ⟨fields.id.plain, fields.name.plain, payload⟩

/-- The tree of a list of records. -/
def recordsToForest : Raw → Except RecordFault Forest
  | list items => items.mapM (recordToNode decodingLimit)
  | raw => .error (.notList raw.typeName)

end Raw

/-- The tree of a source of records. -/
def Forest.ofRecordSource (source : Json.Source) : Except RecordFault Forest := do
  let document ← source.read.mapError .ofRead
  document.toRaw.recordsToForest

end KeyTree
