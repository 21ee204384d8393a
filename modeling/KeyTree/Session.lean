import KeyTree.Listing
import KeyTree.Store.Settings
import KeyTree.Store.Slot
import KeyTree.Document.Import
import KeyTree.Tree.Scope
import KeyTree.Trigger.Link

/-!
# Sessions

A session holds a tree, the scope it is looked at through, the slot that keeps it and the programs of
its formulas. Every change goes through `commit`, which saves the new tree. A request that is refused
gives the session back as it was, unless it is the slot that refuses the new tree.
-/

namespace KeyTree

structure Session where
  root : Forest
  scope : Scope
  cache : Arithmetic.Cache
  slot : Slot
  /-- Whether changes are saved. -/
  isKept : Bool
  /-- How often a tree has been saved. -/
  saves : Nat
  supply : Supply
  exportIndent : Int

/-- Why a request is refused. -/
inductive SessionFault where
  | path (fault : PathFault)
  | edit (fault : EditFault)
  | limit (fault : LimitFault)
  | document (fault : ImportFault)
  | trigger (fault : TriggerFault)
  | url (fault : UrlFault)
  | slot (fault : SlotFault)
  | digits (fault : TooManyDigits)
  | evaluation (fault : EvaluationFault)
  /-- No node of the scope has this identity. -/
  | missing (id : String)
  | notContainer (name : String)
  | noContainer (path : String)
  | deadScope

/-- What is said about a refused request. Nothing is said about a slot, or about the stack. -/
def SessionFault.message : SessionFault → String
  | path fault => fault.message
  | edit fault => fault.message
  | limit fault => fault.message
  | document fault => fault.message
  | trigger fault => fault.message
  | url fault => fault.message
  | slot _ => ""
  | digits fault => fault.message
  | evaluation fault => fault.message
  | missing id => Text.quoted id
  | notContainer name => s!"{Text.quoted name} is not a container"
  | noContainer text => s!"No container at {Text.quoted text}"
  | deadScope => "The current scope no longer names a container"

def ChangeFault.toSession : ChangeFault → SessionFault
  | refused fault => .edit fault
  | limit fault => .limit fault

namespace Session

/-- A result, or why there is none, and the session afterwards. -/
abbrev Step (α : Type) := Except SessionFault α × Session

/-- A session on a tree. -/
def start (settings : Settings) (root : Forest) (slot : Slot) (isKept : Bool) (supply : Supply) :
    Session where
  root := root
  scope := []
  cache := .ofCapacity settings.cacheSize.toNat
  slot := slot
  isKept := isKept
  saves := 0
  supply := supply
  exportIndent := settings.exportIndent

/-- A session on the tree that a slot keeps. -/
def openSlot (settings : Settings) (slot : Slot) (supply : Supply) : Except SlotFault Session := do
  let (root, supply) ← slot.load supply .sample
  return start settings root slot true supply

/-! ## Looking -/

/-- The siblings within the scope. -/
def nodes (s : Session) : Forest := s.root.within s.scope

/-- The container that the scope leads to. -/
def container? (s : Session) : Option Node := s.root.container? s.scope

def get? (s : Session) (path : String) : Except SessionFault (Option Node) :=
  (s.root.lookup? path).mapError .digits

/-- The names along a scope, as far as it leads. -/
def namesAlong (nodes : Forest) : Scope → List String
  | [] => []
  | id :: rest => match nodes.withId? id with
    | none => []
    | some n => n.name :: namesAlong (n.children?.getD []) rest

def breadcrumbs (s : Session) : List String := namesAlong s.root s.scope

/-- Evaluates a formula against the tree. -/
def evaluateFormula (s : Session) (formula : String) : Step Evaluation :=
  let (result, cache) := Formula.evaluate s.cache s.root formula
  (result.mapError .evaluation, { s with cache := cache })

/-- The text shown for a node. -/
def display (s : Session) (n : Node) : Step String :=
  let (result, cache) := n.display s.cache s.root
  (result.mapError .evaluation, { s with cache := cache })

/-- The listing of some nodes under a title. -/
def listing (s : Session) (title : String) (nodes : Forest) : Step String :=
  let (result, cache) := Listing.text s.cache s.root title nodes
  (result.mapError .evaluation, { s with cache := cache })

/-- Evaluates the node at a path. -/
def evaluate (s : Session) (path : String) : Step Evaluation :=
  match s.get? path with
  | .error fault => (.error fault, s)
  | .ok none => (.ok (.missing path), s)
  | .ok (some n) => match n.payload with
    | .leaf (.expression formula) => s.evaluateFormula formula
    | _ =>
      let (text, s) := s.display n
      (text.map .text, s)

/-! ## Moving -/

/-- Goes into a container within the scope. -/
def enter (s : Session) (id : String) : Step Unit :=
  match s.nodes.withId? id with
  | none => (.error (.missing id), s)
  | some n =>
    if n.isContainer then (.ok (), { s with scope := s.scope ++ [id] })
    else (.error (.notContainer n.name), s)

/-- Goes to the container at a path. -/
def navigate (s : Session) (path : String) : Step Unit :=
  match s.root.scopeOf? path with
  | .error fault => (.error (.digits fault), s)
  | .ok none => (.error (.noContainer path), s)
  | .ok (some scope) => (.ok (), { s with scope := scope })

/-- Goes to the container of the node at a path and gives the node, if there is one. -/
def locate (s : Session) (path : String) : Step (Option Node) :=
  match s.get? path with
  | .error fault => (.error fault, s)
  | .ok none => (.ok none, s)
  | .ok (some n) =>
    let (done, s) := s.navigate (Path.containerText path)
    (done.map fun _ ↦ some n, s)

/-- Goes up a number of containers, at most to the root. -/
def up (s : Session) (levels : Int) : Session :=
  { s with scope := s.scope.take (s.scope.length - levels).toNat }

/-! ## Changing -/

/-- Saves the tree, if it is kept. -/
def save (s : Session) : Step Unit :=
  if s.isKept then
    let s := { s with saves := s.saves + 1 }
    match s.slot.save s.root with
    | .ok slot => (.ok (), { s with slot := slot })
    | .error fault => (.error (.slot fault), s)
  else (.ok (), s)

/-- Takes over a tree and saves it. An empty tree in place of an empty one is no change. -/
def commit (s : Session) (root : Forest) : Step Unit :=
  if s.root.isEmpty && root.isEmpty then (.ok (), s) else { s with root := root }.save

/-- Puts a raw value as a kind at a path. -/
def set (s : Session) (path : String) (value : Raw) (kindName : String) : Step Outcome :=
  match (Path.parse path).mapError .path,
    (boundedCoerce callLimit kindName value).mapError ChangeFault.toSession with
  | .error fault, _ => (.error fault, s)
  | _, .error fault => (.error fault, s)
  | .ok p, .ok payload => match s.root.boundedPut s.supply p payload with
    | .error fault => (.error (.limit fault), s)
    | .ok (root, outcome, supply) =>
      let s := { s with supply := supply }
      if outcome.isChange then
        let (done, s) := s.commit root
        (done.map fun _ ↦ outcome, s)
      else (.ok outcome, s)

/-- Adds a node within the scope and gives it back. -/
def add (s : Session) (name kindName : String) (value : Raw) : Step Node :=
  if !s.scope.isEmpty && s.container?.isNone then (.error .deadScope, s)
  else match s.root.boundedAdd s.supply name kindName value s.scope with
    | .error fault => (.error fault.toSession, s)
    | .ok root =>
      let before := s.nodes.map (·.id)
      match (root.within s.scope).find? fun n ↦ !before.contains n.id with
      | none => (.error .deadScope, s)
      | some n =>
        let (done, s) := { s with supply := s.supply.skip 1 }.commit root
        (done.map fun _ ↦ n, s)

/-- Replaces the value of a node within the scope. -/
def edit (s : Session) (id : String) (value : Raw) : Step Unit :=
  match s.root.edit id value s.scope with
  | .error fault => (.error fault.toSession, s)
  | .ok root => s.commit root

/-- Removes a node within the scope. -/
def remove (s : Session) (id : String) : Step Unit :=
  match s.root.boundedDelete id s.scope with
  | .error fault => (.error fault.toSession, s)
  | .ok root => s.commit root

/-- Applies the parameters of a trigger. -/
def applyTrigger (s : Session) (params : Trigger.Params) : Step Trigger.Effect :=
  match Trigger.apply s.supply s.root params with
  | .error fault => (.error (.trigger fault), s)
  | .ok (effect, supply) =>
    let s := { s with supply := supply }
    if effect.isApplied then
      let (done, s) := s.commit effect.root
      (done.map fun _ ↦ effect, s)
    else (.ok effect, s)

/-- Applies the trigger that was taken out of an address, and gives the address to go on with. -/
def useLink {Address : Type} (s : Session) (taken : Except UrlFault (Trigger.Link Address)) :
    Step (Trigger.Effect × Address) :=
  match taken with
  | .error fault => (.error (.url fault), s)
  | .ok taken =>
    let params := taken.params.map fun (name, value) ↦ (name, some value)
    let (effect, s) := s.applyTrigger params
    (effect.map fun effect ↦ (effect, taken.rest), s)

/-- Applies a trigger that comes as an address of a library. -/
def openAddress (library : UrlLibrary) (s : Session) (url : library.Address) :
    Step (Trigger.Effect × library.Address) :=
  s.useLink (Trigger.takeFrom library url)

/-- Applies a trigger that comes as a link. -/
def openLink (library : UrlLibrary) (s : Session) (link : String) :
    Step (Trigger.Effect × library.Address) :=
  s.useLink (Trigger.takeLink library link)

/-! ## Documents -/

/-- Takes over an imported tree, and goes to its root. -/
def replace (s : Session) (imported : Except ImportFault (Forest × Supply)) : Step Unit :=
  match imported with
  | .error fault => (.error (.document fault), s)
  | .ok (root, supply) => match { s with supply := supply }.commit root with
    | (.ok (), s) => (.ok (), { s with scope := [] })
    | (.error fault, s) => (.error fault, s)

def importSource (s : Session) (source : Json.Source) : Step Unit :=
  s.replace (Forest.ofSource s.supply source)

def importDocument (s : Session) (document : Raw) : Step Unit :=
  s.replace (Forest.ofDocument s.supply document)

def exportText (s : Session) : Except SessionFault String :=
  if s.root.isExportable then .ok (s.root.exportText (some s.exportIndent))
  else .error (.limit .tooDeep)

end Session

end KeyTree
