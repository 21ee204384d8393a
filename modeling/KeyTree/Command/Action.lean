import KeyTree.Session
import KeyTree.Text.Terminal

/-!
# Actions

What a command does to a session, and what it replies. An action that is refused says why. A fault
that it does not speak of ends it without a word of its own.
-/

namespace KeyTree

/-- Faults of what was asked, which a user is told about. -/
def SessionFault.isRefusal : SessionFault → Bool
  | trigger .tooDeep => false
  | path _ | edit _ | document _ | trigger _ | notContainer _ | noContainer _ | deadScope => true
  | limit _ | url _ | slot _ | digits _ | evaluation _ | missing _ => false

namespace Command

/-- What is asked of a session. -/
inductive Action where
  /-- List the tree, or what is at a path. -/
  | list (path : String)
  | value (path : String)
  | evaluate (formula : String)
  | set (path value : String) (kind : Kind)
  | add (name value : String) (kind : Kind) (container : String)
  | edit (path value : String)
  | delete (path : String)
  | exportText
  | importText (document : String)
  | trigger (link : String)
  deriving DecidableEq

/-- How an action ends. -/
inductive Reply where
  | done (output : String)
  | refused (message : String)
  | failed (fault : SessionFault)

namespace Reply

/-- One line of text for whatever reads it. -/
def line (text : String) : Reply :=
  .done (String.ofList (Text.withoutControls (text.toList ++ ['\n'])))

/-- Tells the user about a fault that is one of what was asked. -/
def ofFault (fault : SessionFault) : Reply :=
  if fault.isRefusal then .refused fault.message else .failed fault

def keyNotFound (path : String) : Reply := .refused s!"Key not found: {path}"

def ofEvaluation : Evaluation → Reply
  | .text value => line value
  | .number value => line (Number.shown value)
  | .failure message => .refused s!"{Evaluation.failureText}: {message}"

def ofOutcome (path : String) : Outcome → Reply
  | .blocked => .refused (Outcome.acknowledgement path .blocked)
  | outcome => line (outcome.acknowledgement path)

end Reply

namespace Action

/-- The raw value that a text stands for. Containers start empty. -/
def rawValue (kind : Kind) (value : String) : Raw :=
  if kind.shape?.isSome then .null else .text value

/-- The title of the listing of a whole tree. -/
def rootTitle : String := "Jar"

/-- Lists some nodes under a title. -/
def listed (s : Session) (title : String) (nodes : Forest) : Reply × Session :=
  match s.listing title nodes with
  | (.ok text, s) => (.done text, s)
  | (.error fault, s) => (.failed fault, s)

/-- Replies with what is shown for a leaf. -/
def displayed (s : Session) (n : Node) : Reply × Session :=
  match s.display n with
  | (.ok text, s) => (.line text, s)
  | (.error fault, s) => (.failed fault, s)

/-- Lists the tree, or what is at a path. -/
def performList (s : Session) (path : String) : Reply × Session :=
  if path.isEmpty then listed s rootTitle s.root
  else match s.get? path with
    | .error fault => (.failed fault, s)
    | .ok none => (.keyNotFound path, s)
    | .ok (some n) => match n.children? with
      | some children => listed s path children
      | none => displayed s n

/-- Adds a node to the container at a path. -/
def performAdd (s : Session) (name value : String) (kind : Kind) (container : String) :
    Reply × Session :=
  match s.navigate container with
  | (.error fault, s) => (.ofFault fault, s)
  | (.ok (), s) => match s.add name kind.name (rawValue kind value) with
    | (.error fault, s) => (.ofFault fault, s)
    | (.ok n, s) => (.line s!"Added \"{n.name}\" ({n.kind.name})", s)

/-- Replaces the value at a path. -/
def performEdit (s : Session) (path value : String) : Reply × Session :=
  match s.locate path with
  | (.error fault, s) => (.ofFault fault, s)
  | (.ok none, s) => (.keyNotFound path, s)
  | (.ok (some n), s) => match s.edit n.id (.text value) with
    | (.error fault, s) => (.ofFault fault, s)
    | (.ok (), s) => (.line s!"Updated key \"{path}\"", s)

/-- Removes the node at a path. -/
def performDelete (s : Session) (path : String) : Reply × Session :=
  match s.locate path with
  | (.error fault, s) => (.failed fault, s)
  | (.ok none, s) => (.keyNotFound path, s)
  | (.ok (some n), s) => match s.remove n.id with
    | (.error fault, s) => (.failed fault, s)
    | (.ok (), s) => (.line s!"Deleted \"{path}\"", s)

/-- Replies with what a formula or a path comes to. -/
def evaluated : Session.Step Evaluation → Reply × Session
  | (.error fault, s) => (.failed fault, s)
  | (.ok result, s) => (.ofEvaluation result, s)

/-- Performs an action on a session. Links are read by a library of addresses. -/
def perform (library : UrlLibrary) (s : Session) : Action → Reply × Session
  | list path => performList s path
  | value path => evaluated (s.evaluate path)
  | evaluate formula => evaluated (s.evaluateFormula formula)
  | set path text kind => match s.set path (rawValue kind text) kind.name with
    | (.error fault, s) => (.ofFault fault, s)
    | (.ok outcome, s) => (.ofOutcome path outcome, s)
  | add name text kind container => performAdd s name text kind container
  | edit path text => performEdit s path text
  | delete path => performDelete s path
  | exportText => match s.exportText with
    | .error fault => (.failed fault, s)
    | .ok text => (.line text, s)
  | importText document => match s.importSource (.text document) with
    | (.error fault, s) => (.ofFault fault, s)
    | (.ok (), s) => (.line "Imported jar", s)
  | trigger link => match s.openLink library link with
    | (.error fault, s) => (.ofFault fault, s)
    | (.ok (effect, _), s) => match effect.message with
      | some message => (.line message, s)
      | none => (.done "", s)

end Action

end Command

end KeyTree
