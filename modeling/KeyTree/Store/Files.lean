import KeyTree.Ordered
import KeyTree.Store.Location
import KeyTree.Store.Place
import KeyTree.Store.Slot

/-!
# Files

The files and directories that there are. A place that is not named is missing, but what the working
directory lies in is there. Only a directory can be passed on the way to a place.
-/

namespace KeyTree

/-- Why a file cannot be read or written. -/
inductive FileFault where
  /-- The file, or the directory for it, is missing. -/
  | missing
  | isDirectory
  /-- A file stands where a directory is wanted. -/
  | notDirectory
  /-- A file stands where a directory is to be made. -/
  | occupied
  /-- A directory that is a step up cannot be replaced. -/
  | busy
  | nameTooLong
  /-- There is no room for the content. -/
  | full
  /-- No location holds a character of code zero. -/
  | zeroByte
  deriving DecidableEq

def FileFault.message : FileFault → String
  | missing => "No such file or directory"
  | isDirectory => "Is a directory"
  | notDirectory => "Not a directory"
  | occupied => "File exists"
  | busy => "Device or resource busy"
  | nameTooLong => "File name too long"
  | full => "No space left on device"
  | zeroByte => "embedded null byte"

abbrev Files := List (Place × Slot)

namespace Files

/-- The longest name of a file, in bytes. -/
def nameLimit : Nat := 255

/-- The longest location, in bytes. -/
def locationLimit : Nat := 4095

/-- What is at a place. -/
def slot (files : Files) (place : Place) : Slot :=
  if place.names.isEmpty then .directory else (Ordered.get? place files).getD .missing

/-! ## Ways -/

/-- Takes a step, which only a directory allows. -/
def follow (files : Files) (place : Place) (step : Step) : Except FileFault Place :=
  match files.slot place, step with
  | .missing, _ => .error .missing
  | .file _, _ => .error .notDirectory
  | .directory, .down name =>
    if nameLimit < name.utf8ByteSize then .error .nameTooLong else .ok (place.child name)
  | .directory, step => .ok (place.take step)

/-- The place that a location leads to. There may be nothing at it. -/
def resolve (files : Files) (location : String) : Except FileFault Place :=
  if location.toList.contains '\x00' then .error .zeroByte
  else if location.isEmpty then .error .missing
  else if locationLimit < location.utf8ByteSize then .error .nameTooLong
  else (Location.steps location).foldlM files.follow (Location.start location)

/-! ## Reading -/

/-- What is found at a location. A way that is missing is no fault. -/
def find (files : Files) (location : String) : Except FileFault Slot :=
  match files.resolve location with
  | .ok place => .ok (files.slot place)
  | .error .missing => .ok .missing
  | .error fault => .error fault

/-- The content of a file. -/
def content (files : Files) (location : String) : Except FileFault (List UInt8) := do
  match ← files.find location with
  | .missing => throw .missing
  | .directory => throw .isDirectory
  | .file bytes => return bytes

/-- The locations below the working directory where something is, in order. -/
def locations (files : Files) : List String :=
  ((files.filter fun entry ↦ entry.1.isBelow && entry.2 != .missing).map (·.1.text)).mergeSort
    fun a b ↦ decide (a ≤ b)

/-! ## Writing -/

def put (files : Files) (place : Place) (slot : Slot) : Files := Ordered.put place slot files

def remove (files : Files) (place : Place) : Files := Ordered.erase place files

/-- Writes a file into a directory that is there. -/
def write (files : Files) (location : String) (bytes : List UInt8) : Except FileFault Files := do
  let place ← files.resolve location
  match files.slot place with
  | .directory => throw .isDirectory
  | _ => return files.put place (.file bytes)

/-- Makes a directory in one that is there, unless it is there itself. -/
def makeDirectory (files : Files) (location : String) : Except FileFault Files := do
  let place ← files.resolve location
  match files.slot place with
  | .missing => return files.put place .directory
  | .directory => return files
  | .file _ => throw .occupied

/-- Makes a directory, whose segments are given with the last one first, and those that it lies in.
What has been made stays when another cannot be made. -/
def makeAll (root : List Char) : List (List Char) → Files → Except FileFault Unit × Files
  | [], files => (.ok (), files)
  | segment :: outer, files =>
    let location := Location.spelled root (outer.reverse ++ [segment])
    match files.makeDirectory location with
    | .ok made => (.ok (), made)
    | .error .missing => match makeAll root outer files with
      | (.error fault, files) => (.error fault, files)
      | (.ok (), files) => match files.makeDirectory location with
        | .ok made => (.ok (), made)
        | .error fault => (.error fault, files)
    | .error fault => (.error fault, files)

/-- Makes the directory at a location, and those that it lies in. -/
def makeDirectories (files : Files) (location : String) : Except FileFault Unit × Files :=
  let s := location.toList
  makeAll (Location.root s) (Location.segments s).reverse files

/-! ## Saving -/

/-- A number in eight digits. -/
def draftNumber (number : Nat) : String :=
  let digits := (toString number).toList
  String.ofList (List.replicate (8 - digits.length) '0' ++ digits)

/-- A name beside a location, for a file that is to take its place. -/
def draftName (location : String) (number : Nat) : String :=
  Location.beside location s!".{Location.name location}.{draftNumber number}.tmp"

/-- The first place of these names where there is nothing. -/
def draft (files : Files) (location : String) : Except FileFault Place := do
  let first ← files.resolve (draftName location 0)
  let others ← (List.range files.length).mapM fun number ↦
    files.resolve (draftName location (number + 1))
  return ((first :: others).find? fun place ↦ files.slot place == .missing).getD first

/-- Moves a file to where another may be, but not a directory. -/
def move (files : Files) (source : Place) (target : String) : Except FileFault Files := do
  let place ← files.resolve target
  if (Location.steps target).getLast? = some .up then throw .busy
  match files.slot place with
  | .directory => throw .isDirectory
  | _ => return (files.remove source).put place (files.slot source)

/--
Saves a file. It is written beside its place under another name and then moved there, so that the
place never holds a part of it. If it cannot be written, which `writing` tells, or cannot be moved, it
is removed.
-/
def save (files : Files) (location : String) (bytes : List UInt8) (writing : Except FileFault Unit) :
    Except FileFault Unit × Files :=
  match files.makeDirectories (Location.parent location) with
  | (.error fault, files) => (.error fault, files)
  | (.ok (), ready) => match ready.draft location with
    | .error fault => (.error fault, ready)
    | .ok draft =>
      let written := ready.put draft (.file bytes)
      match writing >>= fun () ↦ written.move draft location with
      | .ok moved => (.ok (), moved)
      | .error fault => (.error fault, written.remove draft)

end Files

end KeyTree
