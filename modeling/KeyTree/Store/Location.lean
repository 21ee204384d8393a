import KeyTree.Text.Fields

/-!
# File locations

A location is written without empty segments and without dots that stay where they are. Two slashes
at the start are kept, as they may mean something of their own; three mean no more than one.
-/

namespace KeyTree.Location

/-- The slashes that a location starts with. -/
def root : List Char → List Char
  | '/' :: '/' :: '/' :: _ => ['/']
  | '/' :: '/' :: _ => ['/', '/']
  | '/' :: _ => ['/']
  | _ => []

/-- The segments that say where to go. -/
def segments (s : List Char) : List (List Char) :=
  (Text.fieldList '/' s).filter fun segment ↦ !segment.isEmpty && segment != ['.']

/-- The location of these segments. -/
def spelled (root : List Char) (segments : List (List Char)) : String :=
  let s := root ++ Text.joined ['/'] segments
  if s.isEmpty then "." else String.ofList s

/-- A location in its shortest spelling. -/
def normal (location : String) : String :=
  let s := location.toList
  spelled (root s) (segments s)

/-- The last segment of a location. -/
def name (location : String) : String :=
  String.ofList ((segments location.toList).getLastD [])

/-- The location without its last segment. -/
def parent (location : String) : String :=
  let s := location.toList
  spelled (root s) (segments s).dropLast

/-- The location with another last segment. -/
def beside (location name : String) : String :=
  let s := location.toList
  spelled (root s) ((segments s).dropLast ++ [name.toList])

/-! ## Home directories -/

/-- The home directories of users. The user who asks has the empty name. -/
abbrev Homes := List (String × String)

/-- Why a home directory is not found. -/
inductive HomeFault where
  | unknown
  /-- No name holds a character of code zero. -/
  | zeroByte
  deriving DecidableEq

def HomeFault.message : HomeFault → String
  | unknown => "Could not determine home directory."
  | zeroByte => "embedded null byte"

/-- The home directory of a user. -/
def home (homes : Homes) (user : List Char) : Except HomeFault (List Char) :=
  if user.contains '\x00' then .error .zeroByte
  else match homes.find? fun entry ↦ entry.1 == String.ofList user with
    | some (_, home) => .ok home.toList
    | none => .error .unknown

/-- A location whose first segment starts with a tilde starts in the home directory of the user that
the rest of the segment names. -/
def expandHome (homes : Homes) (location : String) : Except HomeFault String :=
  let s := location.toList
  match root s, segments s with
  | [], ('~' :: user) :: rest =>
    (home homes user).map fun home ↦ normal (String.ofList (Text.joined ['/'] (home :: rest)))
  | _, _ => .ok (normal location)

end KeyTree.Location
