import KeyTree.Command.Run

/-!
# The program

Reads what a command line refers to, runs it, and writes what has changed.
-/

namespace KeyTree.CommandLine

/-- What is at a location. -/
def slotAt (location : String) : IO Slot := do
  try
    return .file (← IO.FS.readBinFile location).toList
  catch
    | .noFileOrDirectory .. => return .missing
    | _ => return .directory

/-- The rest of the input. -/
partial def readAll (input : IO.FS.Stream) (before : List UInt8) : IO (List UInt8) := do
  let bytes ← input.read 65536
  if bytes.isEmpty then return before else readAll input (before ++ bytes.toList)

/-- The files that a request refers to. -/
def locations (settings : Settings) : Option Command.Request → List String
  | some (.importFrom source) => [source]
  | some (.exportTree target _) => [target.getD settings.exportFilename]
  | _ => []

/-- The settings of a user who sets nothing. -/
def standard : IO Settings := do
  return Settings.standard ((← IO.getEnv "HOME").getD "")

/-- The words of a command line behind those that the environment adds. -/
def withEnvironment (words : List String) : IO (List String) := do
  match (← IO.getEnv Settings.pathVariable).filter (!·.isEmpty) with
  | some path => return "--path" :: path :: words
  | none => return words

/-- An unforeseeable start for new identities. -/
def freshSupply : IO Supply := do
  return ⟨(← IO.getRandomBytes 16).toList.foldl (fun n byte ↦ 256 * n + byte.toNat) 0⟩

/-- Everything that a command line can work with. -/
def workspace (settings : Settings) (words : List String) : IO Command.Workspace := do
  let invocation := Command.Invocation.read? words
  let request := invocation.bind fun i ↦ i.verb.bind fun verb ↦ Command.Request.read? verb i.words
  let storage := (invocation.bind (·.storagePath)).getD settings.storagePath
  let places := (storage :: locations settings request).flatMap fun location ↦
    Location.places location ++ Location.places (Location.normal location)
  let files ← places.eraseDups.mapM fun place ↦ return (place, ← slotAt place.text)
  let input ← match request with
    | some (.importFrom "-") => readAll (← IO.getStdin) []
    | _ => pure []
  return ⟨files, input, ← freshSupply⟩

/-- Writes a file beside its place and moves it there. -/
def writeFile (location : String) (content : List UInt8) : IO Unit := do
  let draft := Files.draftName location 0
  IO.FS.writeBinFile draft (ByteArray.mk content.toArray)
  IO.FS.rename draft location

/-- Writes what differs from before. -/
def writeChanges (before after : Files) : IO Unit := do
  for (place, slot) in after do
    unless before.slot place = slot do
      match slot with
      | .file content => writeFile place.text content
      | .directory => IO.FS.createDirAll place.text
      | .missing => pure ()

/-- What is said about a command that ends without a word of its own. -/
def complaint : Command.Ending → String
  | .failed fault => fault.message ++ "\n"
  | .misused => "The command line is not understood\n"
  | .done _ | .refused _ => ""

end KeyTree.CommandLine

open KeyTree in
def main (words : List String) : IO UInt32 := do
  let settings ← CommandLine.standard
  let words ← CommandLine.withEnvironment words
  let before ← CommandLine.workspace settings words
  let (response, after) := Command.run Url.library settings before words
  CommandLine.writeChanges before.files after.files
  IO.print response.output
  IO.eprint (response.errors ++ CommandLine.complaint response.ending)
  return UInt32.ofNat response.status
