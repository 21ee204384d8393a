import KeyTree.Command.Note
import KeyTree.Command.Request
import KeyTree.Store.Files
import KeyTree.Text.LineEnd

/-!
# Running a command

A command opens the tree that is kept in a file, does what the command line asks for, and leaves the
file with what was saved. Whatever is wrong with the command line itself ends it before it does
anything.
-/

namespace KeyTree.Command

/-- What ends a command without a word of its own. -/
inductive Fault where
  | session (fault : SessionFault)
  | link (fault : Trigger.LinkFault)
  | file (fault : FileFault)
  | encoding (fault : Text.EncodingFault)

def Fault.message : Fault → String
  | session fault => fault.message
  | link fault => fault.message
  | file fault => fault.message
  | encoding fault => fault.message

/-- How a command ends. -/
inductive Ending where
  | done (output : String)
  | refused (message : String)
  | failed (fault : Fault)
  /-- The command line asks for nothing that can be done. -/
  | misused

structure Response where
  notes : List Note
  ending : Ending

namespace Response

/-- A response to a command line that asks for nothing. -/
def misused : Response := ⟨[], .misused⟩

def status (r : Response) : Nat :=
  match r.ending with
  | .done _ => 0
  | .refused _ | .failed _ => 1
  | .misused => 2

def output (r : Response) : String :=
  match r.ending with
  | .done output => output
  | _ => ""

/-- What goes to the error output: the notes, and why a request was refused. -/
def errors (r : Response) : String :=
  let said := match r.ending with
    | .refused message =>
      String.ofList (Text.withoutControls s!"Error: {message}\n".toList)
    | _ => ""
  String.join (r.notes.map Note.line) ++ said

end Response

def Ending.ofReply : Reply → Ending
  | .done output => done output
  | .refused message => refused message
  | .failed fault => failed (.session fault)

/-- What a command has to work with. -/
structure Workspace where
  files : Files
  /-- What comes in on the input. -/
  input : List UInt8
  supply : Supply

/-- A tree that is open, and where it is kept. -/
structure Opened where
  path : String
  session : Session
  exportFilename : String

/-- How a command ends whose text for a file names something else: a directory, or nothing that can
be. -/
def misnamed? (files : Files) (text : String) : Option Ending :=
  match files.resolve text with
  | .ok place => if files.slot place = .directory then some .misused else none
  | .error .zeroByte => some (.failed (.file .zeroByte))
  | .error _ => none

/-- Puts what an action has saved into the file. Of a tree that its slot has not taken nothing is
written, but the directory for the file is made. -/
def keep (files : Files) (opened : Opened) (reply : Reply) (session : Session) :
    Except Fault Unit × Files :=
  match reply, session.slot with
  | .failed (.slot fault), _ => match files.makeDirectories (Location.parent opened.path) with
    | (.ok (), files) => (.error (.session (.slot fault)), files)
    | (.error fault, files) => (.error (.file fault), files)
  | _, .file bytes =>
    if opened.session.saves < session.saves then
      let (saving, files) := files.save opened.path bytes (.ok ())
      (saving.mapError .file, files)
    else (.ok (), files)
  | _, _ => (.ok (), files)

/-- Performs an action, and puts what it saves into the file. -/
def act (library : UrlLibrary) (w : Workspace) (opened : Opened) (action : Action) :
    Response × Workspace :=
  let (reply, session) := action.perform library opened.session
  let (saving, files) := keep w.files opened reply session
  let response := match saving with
    | .ok () => ⟨Note.ofAction library opened.path opened.session action, .ofReply reply⟩
    | .error fault => ⟨Note.beforeSave library opened.session action, .failed fault⟩
  (response, { w with files := files, supply := session.supply })

/-- The content of an import's source: the input behind a dash, or a file. -/
def sourceBytes (w : Workspace) (source : String) : Except Ending (List UInt8) :=
  if source = "-" then .ok w.input
  else match w.files.content source with
    | .ok bytes => .ok bytes
    | .error .zeroByte => .error (.failed (.file .zeroByte))
    | .error _ => .error .misused

/-- Writes an export to a file, or to the one that the settings name. -/
def exportTo (w : Workspace) (opened : Opened) (target : Option String) : Response × Workspace :=
  let location := Location.normal (target.getD opened.exportFilename)
  match opened.session.exportText with
  | .error fault => (⟨[], .failed (.session fault)⟩, w)
  | .ok text => match w.files.write location (Text.toUtf8 (text.toList ++ ['\n'])) with
    | .error fault => (⟨[], .failed (.file fault)⟩, w)
    | .ok files => (⟨[], .ofReply (.line s!"Exported to {location}")⟩, { w with files := files })

/-- Does what a request asks for. -/
def respond (library : UrlLibrary) (w : Workspace) (opened : Opened) :
    Request → Response × Workspace
  | .action action => act library w opened action
  | .importFrom source => match sourceBytes w source with
    | .error ending => (⟨[], ending⟩, w)
    | .ok bytes => match Text.ofUtf8 true 0 bytes with
      | .error fault => (⟨[], .failed (.encoding fault)⟩, w)
      | .ok text => act library w opened (.importText (String.ofList (Text.withLineFeeds text)))
  | .exportTree target isPrinted => match target.bind (misnamed? w.files) with
    | some ending => (⟨[], ending⟩, w)
    | none => if isPrinted then act library w opened .exportText else exportTo w opened target
  | .link key value kind base => match Trigger.makeLink library base key value kind.name with
    | .error fault => (⟨[], .failed (.link fault)⟩, w)
    | .ok url => (⟨[], .ofReply (.line (library.text url))⟩, w)

/-- Opens the tree that is kept at a path. -/
def openAt (w : Workspace) (settings : Settings) (path : String) :
    Except Fault (Opened × List Note) := do
  let slot ← (w.files.find path).mapError .file
  let session ← (Session.openSlot settings slot w.supply).mapError fun fault ↦
    .session (.slot fault)
  return (⟨path, session, settings.exportFilename⟩, Note.ofOpening path slot)

/-- Runs a command line. -/
def run (library : UrlLibrary) (settings : Settings) (w : Workspace) (words : List String) :
    Response × Workspace :=
  match Invocation.read? words with
  | none => (.misused, w)
  | some invocation => match invocation.storagePath.bind (misnamed? w.files), invocation.verb with
    | some ending, _ => (⟨[], ending⟩, w)
    | none, none => (.misused, w)
    | none, some verb =>
      let path := Location.normal (invocation.storagePath.getD settings.storagePath)
      match openAt w settings path with
      | .error fault => (⟨[], .failed fault⟩, w)
      | .ok (opened, notes) => match Request.read? verb invocation.words with
        | none => (.misused, w)
        | some request =>
          let w := { w with supply := opened.session.supply }
          let (response, after) := respond library w opened request
          let shown := (notes ++ response.notes).filter (Note.isShown invocation.isVerbose)
          (⟨shown, response.ending⟩, after)

end KeyTree.Command
