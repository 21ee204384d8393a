import KeyTree.Text.Fields

/-!
# Places of files

A location is a way that starts in the working directory, or at the top of all directories behind a
slash, and takes one step after the other. A place is where a way leads.
-/

namespace KeyTree

/-- Where the names of a place start. -/
inductive Base where
  /-- The top of all directories. -/
  | top
  /-- So many directories above the working directory. -/
  | above (levels : Nat)
  deriving DecidableEq

structure Place where
  base : Base
  /-- The names from the base on down, the last one first. -/
  names : List String
  deriving DecidableEq

/-- A step of a way. -/
inductive Step where
  | stay
  | up
  | down (name : String)
  deriving DecidableEq

namespace Place

def top : Place := ⟨.top, []⟩

/-- The working directory. -/
def working : Place := ⟨.above 0, []⟩

def child (name : String) (place : Place) : Place := { place with names := name :: place.names }

/-- The directory that a place lies in. The top lies in itself. -/
def parent : Place → Place
  | ⟨base, _ :: names⟩ => ⟨base, names⟩
  | ⟨.above levels, []⟩ => ⟨.above (levels + 1), []⟩
  | ⟨.top, []⟩ => top

def take (place : Place) : Step → Place
  | .stay => place
  | .up => place.parent
  | .down name => place.child name

/-- Whether a place lies in the working directory or a directory there. -/
def isBelow (place : Place) : Bool := place.base == .above 0 && !place.names.isEmpty

/-- The location of a place. -/
def text (place : Place) : String :=
  let names := place.names.reverse.map String.toList
  match place.base with
  | .top => String.ofList ('/' :: Text.joined ['/'] names)
  | .above levels =>
    let segments := List.replicate levels ['.', '.'] ++ names
    if segments.isEmpty then "." else String.ofList (Text.joined ['/'] segments)

end Place

namespace Step

def ofSegment : List Char → Step
  | [] | ['.'] => stay
  | ['.', '.'] => up
  | name => down (String.ofList name)

end Step

namespace Location

/-- Where the way of a location starts. -/
def start (location : String) : Place :=
  match location.toList with
  | '/' :: _ => .top
  | _ => .working

/-- The steps that a location spells. -/
def steps (location : String) : List Step :=
  (Text.fieldList '/' location.toList).map Step.ofSegment

/-- The places along a way. -/
def placesFrom (place : Place) : List Step → List Place
  | [] => [place]
  | step :: rest => place :: placesFrom (place.take step) rest

/-- The places along the way of a location, the one that it leads to included. -/
def places (location : String) : List Place := placesFrom (start location) (steps location)

end Location

end KeyTree
