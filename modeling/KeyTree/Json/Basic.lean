import KeyTree.Value.Raw

/-!
# JSON values

Whole numbers are kept apart from other numbers, and infinities and NaN are numbers too. An object is
the list of its members in order.
-/

namespace KeyTree

inductive Json where
  | null
  | boolean (value : Bool)
  | integer (value : Int)
  | number (value : Float)
  | string (value : String)
  | array (items : List Json)
  | object (members : List (String × Json))

mutual

/-- A JSON value as a raw value. -/
def Json.toRaw : Json → Raw
  | .null => .null
  | .boolean value => .boolean value
  | .integer value => .integer value
  | .number value => .number value
  | .string value => .text value
  | .array items => .list (Json.itemsToRaw items)
  | .object members => .dictionary (Json.membersToRaw members)

def Json.itemsToRaw : List Json → List Raw
  | [] => []
  | item :: rest => item.toRaw :: Json.itemsToRaw rest

def Json.membersToRaw : List (String × Json) → List (Key × Raw)
  | [] => []
  | (key, value) :: rest => (.text key, value.toRaw) :: Json.membersToRaw rest

end

end KeyTree
