import KeyTree.Trigger.Basic
import KeyTree.Url.Library

/-!
# Triggers as links

The parameters of a trigger may stand in the query of an address. Taking them out leaves the address
to go on with, and putting them in gives a link that sets a key when it is opened.
-/

namespace KeyTree.Trigger

/-- A trigger's parameters by name, and the address without them. -/
structure Link (Address : Type) where
  params : List (String × String)
  rest : Address

/-- Why a link cannot be made. -/
inductive LinkFault where
  | trigger (fault : TriggerFault)
  | url (fault : UrlFault)

def LinkFault.message : LinkFault → String
  | trigger fault => fault.message
  | url fault => fault.message

variable (library : UrlLibrary)

/-- Takes the parameters of a trigger out of an address. Of a repeated one the first value counts. -/
def takeFrom (url : library.Address) : Except UrlFault (Link library.Address) := do
  let params := parameterNames.filterMap fun name ↦
    ((library.params url).first? name).map fun value ↦ (name, value)
  let rest ← parameterNames.foldlM library.withoutParam url
  return ⟨params, rest⟩

/-- Takes the parameters of a trigger out of the address that a text spells. -/
def takeLink (text : String) : Except UrlFault (Link library.Address) :=
  library.parse text >>= takeFrom library

/-- The link on an address that sets a key to a value. -/
def makeLink (base key value type : String) : Except LinkFault library.Address := do
  let kind ← (kindOf (some type)).mapError .trigger
  let url ← (library.parse base).mapError .url
  let new := [("key", key), ("value", value), ("type", kind.name), ("action", "set")]
  (library.withMerged url new).mapError .url

end KeyTree.Trigger
