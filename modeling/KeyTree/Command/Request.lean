import KeyTree.Command.Action
import KeyTree.Command.Arguments

/-!
# Requests

A command line names a command between the options for all commands and the words for this one. The
words are checked against what the command takes: so many operands, and kinds that it knows.
-/

namespace KeyTree.Command

/-- The commands. -/
inductive Verb where
  | list
  | value
  | evaluate
  | set
  | add
  | edit
  | delete
  | exportTree
  | importTree
  | trigger
  | link
  deriving DecidableEq

namespace Verb

def all : List Verb :=
  [list, value, evaluate, set, add, edit, delete, exportTree, importTree, trigger, link]

def name : Verb → String
  | list => "show"
  | value => "get"
  | evaluate => "eval"
  | set => "set"
  | add => "add"
  | edit => "edit"
  | delete => "delete"
  | exportTree => "export"
  | importTree => "import"
  | trigger => "trigger"
  | link => "url"

def ofName? (name : String) : Option Verb := all.find? (·.name == name)

/-- The option that names a kind. -/
def kindSwitch : Switch := ⟨"type", some 't', true⟩

/-- The options that a command takes. -/
def switches : Verb → List Switch
  | set => [kindSwitch]
  | add => [kindSwitch, ⟨"value", none, true⟩, ⟨"in", none, true⟩]
  | exportTree => [⟨"output", some 'o', true⟩, ⟨"stdout", none, false⟩]
  | link => [kindSwitch, ⟨"base", none, true⟩]
  | list | value | evaluate | edit | delete | importTree | trigger => []

end Verb

/-- What a command line asks for. -/
inductive Request where
  | action (action : Action)
  /-- Import a file, or the input. -/
  | importFrom (source : String)
  /-- Print an export, or write it to a file, or to the one that the settings name. -/
  | exportTree (target : Option String) (isPrinted : Bool)
  /-- Make a link that sets a key. -/
  | link (key value : String) (kind : Kind) (base : String)
  deriving DecidableEq

namespace Request

/-- The kind that the options name. -/
def kind? (a : Arguments) : Option Kind :=
  Kind.ofName? ((a.value? Verb.kindSwitch.name).getD Kind.text.name)

/-- The address that links lead to. -/
def defaultBase : String := "http://localhost/"

/-- Reads the words of a command. -/
def read? (verb : Verb) (words : List String) : Option Request := do
  let a ← Arguments.read? verb.switches true words
  let optional (name : String) := (a.value? name).getD ""
  match verb, a.operands with
  | .list, [] => return .action (.list "")
  | .list, [path] => return .action (.list path)
  | .value, [path] => return .action (.value path)
  | .evaluate, [formula] => return .action (.evaluate formula)
  | .set, [path] => return .action (.set path "" (← kind? a))
  | .set, [path, value] => return .action (.set path value (← kind? a))
  | .add, [] => return .action (.add "" (optional "value") (← kind? a) (optional "in"))
  | .add, [name] => return .action (.add name (optional "value") (← kind? a) (optional "in"))
  | .edit, [path, value] => return .action (.edit path value)
  | .delete, [path] => return .action (.delete path)
  | .exportTree, [] => return .exportTree (a.value? "output") (a.isSet "stdout")
  | .importTree, [source] => return .importFrom source
  | .trigger, [address] => return .action (.trigger address)
  | .link, [key] => makeLink a key ""
  | .link, [key, value] => makeLink a key value
  | _, _ => none
where
  makeLink (a : Arguments) (key value : String) : Option Request := do
    let kind ← (kind? a).filter Trigger.isTriggerKind
    return .link key value kind ((a.value? "base").getD defaultBase)

end Request

/-- A command line, read as far as the name of the command. -/
structure Invocation where
  storagePath : Option String
  isVerbose : Bool
  /-- The command, if one is named that there is. -/
  verb : Option Verb
  words : List String
  deriving DecidableEq

namespace Invocation

/-- The options for all commands. -/
def switches : List Switch := [⟨"path", none, true⟩, ⟨"verbose", some 'v', false⟩]

def read? (words : List String) : Option Invocation := do
  let a ← Arguments.read? switches false words
  let storagePath := a.value? "path"
  let isVerbose := a.isSet "verbose"
  match a.operands with
  | [] => return ⟨storagePath, isVerbose, none, []⟩
  | name :: words => return ⟨storagePath, isVerbose, Verb.ofName? name, words⟩

end Invocation

end KeyTree.Command
