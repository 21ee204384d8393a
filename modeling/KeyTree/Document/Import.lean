import KeyTree.Json.Reader
import KeyTree.Tree.Names
import KeyTree.Tree.Supply

/-!
# Trees of plain documents

The kind of a node shows in its value. An array is a list, but one that stands directly in an array
becomes a dictionary whose names are the positions. All nodes get new identities.
-/

namespace KeyTree

/-- Why a document is no tree. -/
inductive ImportFault where
  | notObject (typeName : String)
  | outOfRange (name : String)
  | unsupported (name typeName : String)
  | unreadable (fault : Json.ReadFault)
  | tooDeep

namespace ImportFault

def message : ImportFault → String
  | notObject typeName => s!"Top-level JSON value must be an object, got {typeName}"
  | outOfRange name => s!"Number out of range for {Text.quoted name}"
  | unsupported name typeName => s!"Unsupported JSON value for {Text.quoted name}: {typeName}"
  | unreadable fault => s!"Invalid JSON: {fault.message}"
  | tooDeep => "JSON document is nested too deeply"

def ofRead : Json.ReadFault → ImportFault
  | .tooDeep => tooDeep
  | fault => unreadable fault

end ImportFault

namespace Raw

/-- The leaf that a value under a name becomes. -/
def toLeaf (name : String) : Raw → Except ImportFault Leaf
  | null => .ok (.text "")
  | boolean value => .ok (.boolean value)
  | integer value => match Quanta.ofInt? value with
    | some x => .ok (.number x)
    | none => .error (.outOfRange name)
  | number value => .ok (.number value)
  | text value => .ok (.text value)
  | raw => .error (.unsupported name raw.typeName)

mutual

/-- The node of a value. `arrays` is the shape that an array gets where it stands, and `room` is how
deep values may nest. The node has no identity yet. -/
def toNode (room : Nat) (arrays : Shape) (name : String) : Raw → Except ImportFault Node
  | dictionary entries =>
    if room = 0 then .error .tooDeep
    else return ⟨"", name, .branch .dictionary (← entriesToNodes (room - 1) entries)⟩
  | list items =>
    if room = 0 then .error .tooDeep
    else return ⟨"", name, .branch arrays (← itemsToNodes (room - 1) 0 items)⟩
  | raw => (raw.toLeaf name).map fun value ↦ ⟨"", name, .leaf value⟩

def entriesToNodes (room : Nat) : List (Key × Raw) → Except ImportFault (List Node)
  | [] => .ok []
  | (key, value) :: rest =>
    return (← toNode room .list key.name value) :: (← entriesToNodes room rest)

def itemsToNodes (room index : Nat) : List Raw → Except ImportFault (List Node)
  | [] => .ok []
  | item :: rest =>
    return (← toNode room .dictionary (Forest.positionName index) item) ::
      (← itemsToNodes room (index + 1) rest)

end

/-- The tree of a document, without identities. -/
def toForest (document : Raw) : Except ImportFault Forest :=
  match document with
  | dictionary entries => entriesToNodes (importLimit - 1) entries
  | raw => .error (.notObject raw.typeName)

end Raw

namespace Forest

/-- Imports a document that has been read. -/
def ofDocument (supply : Supply) (document : Raw) : Except ImportFault (Forest × Supply) :=
  document.toForest.map supply.labelAll

/-- Imports a document that has not been read. -/
def ofSource (supply : Supply) (source : Json.Source) : Except ImportFault (Forest × Supply) := do
  let document ← source.read.mapError .ofRead
  ofDocument supply document.toRaw

end Forest

end KeyTree
