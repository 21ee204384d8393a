import KeyTree.Store.Files

/-!
# Stores

A store keeps a tree in the file at a location. The file is not the store's alone: others may write
to it, or make a directory in its place.
-/

namespace KeyTree

/-- Why a store takes no tree, or gives none. -/
inductive StoreFault where
  | file (fault : FileFault)
  | slot (fault : SlotFault)

/-- The location of a file for a tree, and the tree to start with where there is none. -/
structure Store where
  location : String
  fallback : Forest

/-- The surroundings of a store. -/
structure StoreState where
  files : Files
  supply : Supply

/-- What happens to a store. -/
inductive StoreCall where
  | load
  /-- `writing` is what comes of writing the file that is to take the other's place. -/
  | save (root : Forest) (writing : Except FileFault Unit)
  /-- Bytes are written to the file by others. -/
  | write (content : List UInt8)
  /-- A directory is made at the location by others. -/
  | makeDirectory

inductive StoreReply where
  | loaded (root : Forest)
  | done
  | failed (fault : StoreFault)

def StoreReply.ofResult : Except StoreFault Unit → StoreReply
  | .ok () => done
  | .error fault => failed fault

namespace Store

/-- The tree in the file, or the fallback with new identities. -/
def load (store : Store) (state : StoreState) : Except StoreFault (Forest × Supply) := do
  let slot ← (state.files.find store.location).mapError .file
  (slot.load state.supply store.fallback).mapError .slot

/-- Keeps a tree in the file. The directory for the file is made in any case. -/
def save (store : Store) (root : Forest) (writing : Except FileFault Unit) (files : Files) :
    Except StoreFault Unit × Files :=
  if encodingLimit < Forest.height root then
    match files.makeDirectories (Location.parent store.location) with
    | (.ok (), files) => (.error (.slot .tooDeep), files)
    | (.error fault, files) => (.error (.file fault), files)
  else
    let (saving, files) := files.save store.location (Text.toUtf8 root.recordText.toList) writing
    (saving.mapError .file, files)

/-- Writes bytes to the file as they are, into a directory that is made for it. -/
def write (store : Store) (content : List UInt8) (files : Files) :
    Except StoreFault Unit × Files :=
  match files.makeDirectories (Location.parent store.location) with
  | (.error fault, files) => (.error (.file fault), files)
  | (.ok (), files) => match files.write store.location content with
    | .ok files => (.ok (), files)
    | .error fault => (.error (.file fault), files)

/-- Makes a directory at the location. -/
def makeDirectory (store : Store) (files : Files) : Except StoreFault Unit × Files :=
  let (making, files) := files.makeDirectories store.location
  (making.mapError .file, files)

def call (store : Store) (state : StoreState) : StoreCall → StoreReply × StoreState
  | .load => match store.load state with
    | .ok (root, supply) => (.loaded root, { state with supply := supply })
    | .error fault => (.failed fault, state)
  | .save root writing =>
    let (saving, files) := store.save root writing state.files
    (.ofResult saving, { state with files := files })
  | .write content =>
    let (writing, files) := store.write content state.files
    (.ofResult writing, { state with files := files })
  | .makeDirectory =>
    let (making, files) := store.makeDirectory state.files
    (.ofResult making, { state with files := files })

/-- One call after the other. -/
def run (store : Store) (state : StoreState) (calls : List StoreCall) : StoreState :=
  calls.foldl (fun state call ↦ (store.call state call).2) state

end Store

end KeyTree
