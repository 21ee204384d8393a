/-!
# Ordered associations

Lists of keys and values in which a key keeps the place where it was first put, and has the value
that was put last.
-/

namespace KeyTree.Ordered

variable {κ : Type} {β : Type} [BEq κ]

/-- Puts a value under a key: in place if the key is there, at the end otherwise. -/
def put (key : κ) (value : β) : List (κ × β) → List (κ × β)
  | [] => [(key, value)]
  | (k, v) :: rest => if k == key then (k, value) :: rest else (k, v) :: put key value rest

/-- Puts a list of entries one after the other. -/
def ofList (entries : List (κ × β)) : List (κ × β) :=
  entries.foldl (fun table entry ↦ put entry.1 entry.2 table) []

def get? (key : κ) (table : List (κ × β)) : Option β :=
  (table.find? fun entry ↦ entry.1 == key).map (·.2)

/-- The entries of other keys. -/
def erase (key : κ) (table : List (κ × β)) : List (κ × β) :=
  table.filter fun entry ↦ !(entry.1 == key)

/-- Values by key, each key with its values in order. The keys stand where they first occur. -/
def group (entries : List (κ × β)) : List (κ × List β) :=
  (entries.map (·.1)).eraseDups.map fun key ↦
    (key, (entries.filter fun entry ↦ entry.1 == key).map (·.2))

end KeyTree.Ordered
