import KeyTree.Number.Numeral
import KeyTree.Tree.Put
import KeyTree.Value.Coercion

/-!
# Triggers

A trigger is a set of named texts that asks for one value to be put at one path. Its parameters are
used up whether or not it succeeds, so that applying what is left of it does nothing.
-/

namespace KeyTree

/-- Why a trigger is refused. -/
inductive TriggerFault where
  | unsupportedType (name : String)
  | path (fault : PathFault)
  | edit (fault : EditFault)
  /-- The path has more segments than calls fit on the stack. Nothing is said about it. -/
  | tooDeep

def TriggerFault.message : TriggerFault → String
  | unsupportedType name => s!"Unsupported trigger type: {Text.quoted name}"
  | path fault => fault.message
  | edit fault => fault.message
  | tooDeep => ""

namespace Trigger

/-- Named texts, some of which may be absent though named. -/
abbrev Params := List (String × Option String)

/-- The parameters of a trigger. -/
def parameterNames : List String := ["key", "value", "type", "action"]

/-- The kinds that a trigger may ask for. -/
def isTriggerKind (kind : Kind) : Bool := kind != .expression

/-- The kind of a type parameter, text being the default. -/
def kindOf (type : Option String) : Except TriggerFault Kind :=
  match type with
  | none | some "" => .ok .text
  | some name => match (Kind.ofName? name).filter isTriggerKind with
    | some kind => .ok kind
    | none => .error (.unsupportedType name)

/-- The number at the start of a text, behind blanks, whatever follows it. -/
def leadingNumber (s : String) : Float :=
  match Number.scan? (s.toList.dropWhile Text.isBlank) with
  | some (x, _) => x
  | none => 0 / 0

/-- The raw value of a value parameter. -/
def rawValue (value : String) : Kind → Raw
  | .number => .number (leadingNumber value)
  | .boolean => .boolean (value == "true")
  | .dictionary | .list => .null
  | .text | .expression => .text value

/-- The text of a parameter that is there and not empty. -/
def nonempty? (params : Params) (name : String) : Option String :=
  ((Ordered.get? name params).bind id).filter (!·.isEmpty)

/-- What is left of the parameters once the trigger is used up. -/
def remaining (params : Params) : Params :=
  params.filter fun entry ↦ !parameterNames.contains entry.1

/-- What a trigger did. Without a key it does nothing, and has no outcome. -/
structure Effect where
  root : Forest
  outcome : Option Outcome
  message : Option String

def Effect.isApplied (effect : Effect) : Bool := effect.outcome.any Outcome.isChange

/-- Applies a trigger to a tree. -/
def apply (supply : Supply) (root : Forest) (params : Params) :
    Except TriggerFault (Effect × Supply) := do
  match nonempty? params "key" with
  | none => return (⟨root, none, none⟩, supply)
  | some key =>
    let kind ← kindOf (nonempty? params "type")
    let value := (nonempty? params "value").getD ""
    let path ← (Path.parse key).mapError .path
    let payload ← (kind.coerce (rawValue value kind)).mapError .edit
    let (root, outcome, supply) ← (root.boundedPut supply path payload).mapError fun _ ↦ .tooDeep
    return (⟨root, some outcome, some (outcome.acknowledgement key)⟩, supply)

end Trigger

end KeyTree
