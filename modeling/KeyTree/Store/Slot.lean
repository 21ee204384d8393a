import KeyTree.Document.Record
import KeyTree.Tree.Supply

/-!
# The slot that keeps a tree

A slot is a place for one file. Saving replaces the file as a whole. A slot that a directory occupies
stays as it is, and so does one that is to keep a tree which nests too deeply. Loading gives the tree
of the file, or another tree if there is no file or the file does not hold one.
-/

namespace KeyTree

/-- What is at the place of the file. -/
inductive Slot where
  | missing
  | file (content : List UInt8)
  | directory
  deriving DecidableEq

/-- Why a slot takes no tree, or gives none. -/
inductive SlotFault where
  /-- A directory stands where a file is wanted. -/
  | isDirectory
  /-- The tree nests deeper than records are written. -/
  | tooDeep
  deriving DecidableEq

/-- Why a slot gives no tree. -/
inductive LoadFault where
  | missing
  | unreadable (fault : RecordFault)
  | isDirectory

namespace Slot

/-- A slot with a text in it. -/
def ofText (text : String) : Slot := file (Text.toUtf8 text.toList)

/-- Puts content into the slot. -/
def write (content : List UInt8) : Slot → Except SlotFault Slot
  | directory => .error .isDirectory
  | _ => .ok (file content)

/-- Keeps a tree, if it does not nest too deeply. -/
def save (root : Forest) (slot : Slot) : Except SlotFault Slot :=
  if encodingLimit < Forest.height root then .error .tooDeep
  else slot.write (Text.toUtf8 root.recordText.toList)

/-- The tree in the slot. -/
def read : Slot → Except LoadFault Forest
  | missing => .error .missing
  | directory => .error .isDirectory
  | file content => (Forest.ofRecordSource (.bytes content)).mapError .unreadable

/-- The tree in the slot, or a fallback with new identities. -/
def load (supply : Supply) (fallback : Forest) (slot : Slot) :
    Except SlotFault (Forest × Supply) :=
  match slot.read with
  | .ok root => .ok (root, supply)
  | .error .isDirectory => .error .isDirectory
  | .error _ => .ok (supply.labelAll fallback)

end Slot

namespace Forest

def leaf (name : String) (value : Leaf) : Node := ⟨"", name, .leaf value⟩

/-- The tree that a user starts with, without identities. -/
def sample : Forest := [
  leaf "greeting" (.text "Hello World"),
  ⟨"", "config", .branch .dictionary [
    leaf "theme" (.text "dark"),
    leaf "fontSize" (.number 14)]⟩,
  leaf "price" (.number 100),
  leaf "tax_rate" (.number 0.2),
  leaf "total_cost" (.expression "\x7b\x7bprice\x7d\x7d * (1 + \x7b\x7btax_rate\x7d\x7d)")]

end Forest

end KeyTree
