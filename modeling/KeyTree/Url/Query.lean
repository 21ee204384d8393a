import KeyTree.Ordered
import KeyTree.Text.Fields
import KeyTree.Url.Percent

/-!
# Query parameters

A query is a list of names and values, with a plus sign for a space. Its parameters are grouped by
name in the order in which the names first occur.
-/

namespace KeyTree.Url

/-- Names with their values. -/
abbrev Params := List (String × List String)

namespace Params

/-- A name or a value as it was before encoding. -/
def decodePart (s : List Char) : String :=
  String.ofList (percentDecode (s.map fun c ↦ if c = '+' then ' ' else c))

/-- The name and value of one field. A field without an equals sign is a name alone. -/
def decodeField (s : List Char) : String × String :=
  match Text.cut? '=' s with
  | some (name, value) => (decodePart name, decodePart value)
  | none => (decodePart s, "")

/-- The parameters of a query. Empty fields count for nothing. -/
def ofQuery (query : List Char) : Params :=
  Ordered.group (((Text.fieldList '&' query).filter (!·.isEmpty)).map decodeField)

def encodePart (s : String) : List Char :=
  (percentEncode (· == ' ') s.toList).map fun c ↦ if c = ' ' then '+' else c

/-- The query of parameters. -/
def toQuery (params : Params) : List Char :=
  Text.joined ['&'] (params.flatMap fun (name, values) ↦
    values.map fun value ↦ encodePart name ++ '=' :: encodePart value)

/-- The first value of a name. -/
def first? (params : Params) (name : String) : Option String :=
  (Ordered.get? name params).bind (·.head?)

def remove (params : Params) (name : String) : Params := Ordered.erase name params

/-- Gives names one value each: in place of the values they have, or at the end. -/
def merge (params : Params) (new : List (String × String)) : Params :=
  new.foldl (fun params (name, value) ↦ Ordered.put name [value] params) params

end Params

end KeyTree.Url
