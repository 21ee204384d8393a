/-!
# Arguments of a command

A word that starts with a dash is an option: a long one behind two dashes, or a cluster of short ones
behind one. An option's value follows it in the same word or is the next word, whatever that looks
like. Two dashes alone end the options, and one dash alone is no option.
-/

namespace KeyTree.Command

/-- An option that a command takes. -/
structure Switch where
  name : String
  short : Option Char
  takesValue : Bool
  deriving DecidableEq

/-- The words of a command line, read. -/
structure Arguments where
  /-- The options in the order given, each with its value, which is empty if it takes none. -/
  options : List (String × String)
  operands : List String
  deriving DecidableEq

namespace Arguments

/-- The options in a word, and the one that takes the next word as its value. -/
abbrev Reading := List (String × String) × Option String

/-- The option in a word behind two dashes. -/
def readLong? (switches : List Switch) (body : List Char) : Option Reading :=
  let name := String.ofList (body.takeWhile (· != '='))
  match switches.find? (·.name == name), body.dropWhile (· != '=') with
  | none, _ => none
  | some ⟨_, _, true⟩, [] => some ([], some name)
  | some ⟨_, _, true⟩, _ :: value => some ([(name, String.ofList value)], none)
  | some ⟨_, _, false⟩, [] => some ([(name, "")], none)
  | some ⟨_, _, false⟩, _ :: _ => none

/-- The options in a word behind one dash. One that takes a value takes the rest of the word. -/
def readShort? (switches : List Switch) : List Char → Option Reading
  | [] => some ([], none)
  | c :: rest => match switches.find? (·.short == some c) with
    | none => none
    | some ⟨name, _, true⟩ =>
      if rest.isEmpty then some ([], some name) else some ([(name, String.ofList rest)], none)
    | some ⟨name, _, false⟩ =>
      (readShort? switches rest).map fun (options, open?) ↦ ((name, "") :: options, open?)

/-- The options in a word. -/
def readWord? (switches : List Switch) : List Char → Option Reading
  | '-' :: '-' :: body => readLong? switches body
  | '-' :: body => readShort? switches body
  | _ => none

def isOption (word : String) : Bool :=
  match word.toList with
  | '-' :: _ :: _ => true
  | _ => false

def withOptions (options : List (String × String)) (a : Arguments) : Arguments :=
  { a with options := options ++ a.options }

def withOperand (operand : String) (a : Arguments) : Arguments :=
  { a with operands := operand :: a.operands }

/-- Reads words. If options and operands do not mix, the first operand ends the options. -/
def read? (switches : List Switch) (isMixed : Bool) : List String → Option Arguments
  | [] => some ⟨[], []⟩
  | word :: rest =>
    if word = "--" then some ⟨[], rest⟩
    else if isOption word then
      match readWord? switches word.toList, rest with
      | none, _ => none
      | some (options, none), rest =>
        (read? switches isMixed rest).map (withOptions options)
      | some (_, some _), [] => none
      | some (options, some name), value :: rest =>
        (read? switches isMixed rest).map (withOptions (options ++ [(name, value)]))
    else if isMixed then (read? switches isMixed rest).map (withOperand word)
    else some ⟨[], word :: rest⟩

/-- The value of an option. Of a repeated one the last value counts. -/
def value? (a : Arguments) (name : String) : Option String :=
  (a.options.reverse.find? (·.1 == name)).map (·.2)

def isSet (a : Arguments) (name : String) : Bool := (a.value? name).isSome

end Arguments

end KeyTree.Command
