import KeyTree.Command.Action

/-!
# Notes

What is noted about an action besides its reply, in the order in which it happens: formulas that
fail, values that are taken for others, paths that are blocked, and what is saved.
-/

namespace KeyTree

mutual

/-- The formulas of a node, in order. -/
def Node.formulas : Node → List String
  | ⟨_, _, .leaf (.expression formula)⟩ => [formula]
  | ⟨_, _, .leaf _⟩ => []
  | ⟨_, _, .branch _ children⟩ => Forest.formulas children

def Forest.formulas : List Node → List String
  | [] => []
  | n :: ns => n.formulas ++ Forest.formulas ns

end

namespace Raw

mutual

/-- The values in a value that hold no others or nest too deeply, each with its name, in order. -/
def leaves (room : Nat) (name : String) : Raw → List (String × Raw)
  | dictionary entries =>
    if room = 0 then [(name, dictionary entries)] else entryLeaves (room - 1) entries
  | list items => if room = 0 then [(name, list items)] else itemLeaves (room - 1) 0 items
  | raw => [(name, raw)]

def entryLeaves (room : Nat) : List (Key × Raw) → List (String × Raw)
  | [] => []
  | (key, value) :: rest => leaves room key.name value ++ entryLeaves room rest

def itemLeaves (room index : Nat) : List Raw → List (String × Raw)
  | [] => []
  | item :: rest =>
    leaves room (Forest.positionName index) item ++ itemLeaves room (index + 1) rest

end

/-- The names of the empty values that an import of a document comes to. -/
def importedNulls : Raw → List String
  | dictionary entries =>
    let leaves := entryLeaves (importLimit - 1) entries
    let reached := leaves.takeWhile fun (name, raw) ↦ (raw.toLeaf name).isOk
    reached.filterMap fun (name, raw) ↦ match raw with
      | null => some name
      | _ => none
  | _ => []

end Raw

namespace Command

/-- How much a note matters. -/
inductive Level where
  | debug
  | info
  | warning
  deriving DecidableEq

def Level.name : Level → String
  | debug => "DEBUG"
  | info => "INFO"
  | warning => "WARNING"

structure Note where
  level : Level
  /-- What the note comes from. -/
  source : String
  text : String
  deriving DecidableEq

namespace Note

def line (note : Note) : String := s!"{note.level.name} {note.source}: {note.text}\n"

/-- Warnings are always shown, and other notes when they are asked for. -/
def isShown (isVerbose : Bool) (note : Note) : Bool := isVerbose || note.level = .warning

def failedFormula (formula message : String) : Note :=
  ⟨.debug, "data_jar.expression.evaluator", s!"Formula {Text.quoted formula}: {message}"⟩

def blocked (path : String) : Note :=
  ⟨.debug, "data_jar.tree.mutator", s!"deep_set blocked by a leaf along {Text.quoted path}"⟩

def importedNull (name : String) : Note :=
  ⟨.debug, "data_jar.codec", s!"Importing null at {Text.quoted name} as empty text"⟩

def usedTrigger (rest : String) : Note :=
  ⟨.debug, "data_jar.jar", s!"Consumed trigger parameters; entry point is now {rest}"⟩

def blockedTrigger (key : String) : Note :=
  ⟨.info, "data_jar.trigger", s!"Trigger for {Text.quoted key} blocked by a leaf"⟩

def appliedTrigger (key : String) (kind : Kind) (outcome : Outcome) : Note :=
  ⟨.info, "data_jar.trigger",
    s!"Trigger set {Text.quoted key} ({kind.name}): {outcome.name}"⟩

def acknowledged (message : String) : Note := ⟨.info, "data_jar.jar", message⟩

def saved (count : Nat) (path : String) : Note :=
  ⟨.debug, "data_jar.store", s!"Saved {count} top-level nodes to {path}"⟩

def noTree (path : String) : Note :=
  ⟨.info, "data_jar.store", s!"No jar at {path}, starting from the default jar"⟩

def unreadable (path : String) (fault : RecordFault) : Note :=
  ⟨.warning, "data_jar.store", s!"Failed to load jar from {path}: {fault.message}"⟩

/-- What is noted about a formula that is evaluated. -/
def ofFormula (root : Forest) (formula : String) : List Note :=
  match Formula.evaluateOnce root formula with
  | .ok (.failure message) => [failedFormula formula message]
  | _ => []

/-- What is noted about nodes that are shown, up to one that cannot be. -/
def ofShown (root : Forest) (nodes : List Node) : List Note :=
  let reached := (Forest.formulas nodes).takeWhile fun formula ↦
    (Formula.evaluateOnce root formula).isOk
  reached.flatMap (ofFormula root)

/-- What is noted about a trigger that is applied. -/
def ofTrigger (s : Session) (params : Trigger.Params) : List Note :=
  let kind := Trigger.kindOf (Trigger.nonempty? params "type")
  match Trigger.nonempty? params "key", kind, Trigger.apply s.supply s.root params with
  | some key, .ok kind, .ok (effect, _) => match effect.outcome with
    | some .blocked => [blocked key, blockedTrigger key]
    | some outcome => [appliedTrigger key kind outcome]
    | none => []
  | _, _, _ => []

/-- What is noted before an action's changes are saved. -/
def beforeSave (library : UrlLibrary) (s : Session) : Action → List Note
  | .list path =>
    if path.isEmpty then ofShown s.root s.root
    else match s.get? path with
      | .ok (some n) => ofShown s.root (n.children?.getD [n])
      | _ => []
  | .value path => match s.get? path with
    | .ok (some ⟨_, _, .leaf (.expression formula)⟩) => ofFormula s.root formula
    | _ => []
  | .evaluate formula => ofFormula s.root formula
  | .set path value kind => match (s.set path (Action.rawValue kind value) kind.name).1 with
    | .ok .blocked => [blocked path]
    | _ => []
  | .importText document => match (Json.Source.text document).read with
    | .ok document => document.toRaw.importedNulls.map importedNull
    | .error _ => []
  | .trigger link => match Trigger.takeLink library link with
    | .ok taken =>
      let params := taken.params.map fun (name, value) ↦ (name, some value)
      usedTrigger (library.text taken.rest) :: ofTrigger s params
    | .error _ => []
  | .add _ _ _ _ | .edit _ _ | .delete _ | .exportText => []

/-- What is noted after an action's changes are saved. -/
def afterSave (library : UrlLibrary) (s : Session) : Action → List Note
  | .trigger link => match (s.openLink library link).1 with
    | .ok (effect, _) => effect.message.toList.map acknowledged
    | .error _ => []
  | _ => []

/-- What is noted about an action on a session that is kept at a path, unless saving fails. -/
def ofAction (library : UrlLibrary) (path : String) (s : Session) (action : Action) :
    List Note :=
  let after := (action.perform library s).2
  let saving := if s.saves < after.saves then [saved after.root.length path] else []
  beforeSave library s action ++ saving ++ afterSave library s action

/-- What is noted about a slot that is opened. -/
def ofOpening (path : String) (slot : Slot) : List Note :=
  match slot.read with
  | .error .missing => [noTree path]
  | .error (.unreadable fault) => [unreadable path fault]
  | .error .isDirectory | .ok _ => []

end Note

end Command

end KeyTree
