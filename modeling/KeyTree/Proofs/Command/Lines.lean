import KeyTree.Command.Run
import KeyTree.Proofs.Command.Actions
import KeyTree.Proofs.Store.Saving

/-!
# Command lines

What a command line asks for, as an action on the tree in one file, and what running it comes to:
the tree is had from the file, the action is performed, and a tree that has been saved is put into
the file.
-/

namespace KeyTree.Command

/-! ## Lines and what they ask for -/

/-- A command line, and what comes in on its input. -/
structure Line where
  words : List String
  input : List UInt8

/-- The action on a tree that a request comes to: not one on other files, and none if what it is to
read cannot be read. -/
def Request.action? (w : Workspace) : Request → Option Action
  | .action asked => some asked
  | .importFrom source =>
    ((sourceBytes w source).toOption.bind fun bytes ↦ (Text.ofUtf8 true 0 bytes).toOption).map
      fun text ↦ .importText (String.ofList (Text.withLineFeeds text))
  | .exportTree target true =>
    if (target.bind (misnamed? w.files)).isSome then none else some .exportText
  | .exportTree _ false | .link _ _ _ _ => none

namespace Line

/-- What a line has to work with. -/
def workspace (w : Workspace) (line : Line) : Workspace := { w with input := line.input }

/-- Runs a line. -/
def run (library : UrlLibrary) (settings : Settings) (w : Workspace) (line : Line) :
    Response × Workspace :=
  Command.run library settings (line.workspace w) line.words

/-- The action that a line asks for on the tree at a path. -/
def action? (settings : Settings) (path : String) (w : Workspace) (line : Line) :
    Option Action := do
  let invocation ← Invocation.read? line.words
  let verb ← invocation.verb
  if (invocation.storagePath.bind (misnamed? w.files)).isSome then none
  else if Location.normal (invocation.storagePath.getD settings.storagePath) ≠ path then none
  else
    let request ← Request.read? verb invocation.words
    request.action? (line.workspace w)

/-- A line that does not ask for all notes. -/
def IsQuiet (line : Line) : Prop :=
  ∀ invocation ∈ Invocation.read? line.words, invocation.isVerbose = false

end Line

/-- The actions that lines ask for when they are run one after the other, if each asks for one. -/
def actions? (library : UrlLibrary) (settings : Settings) (path : String) (w : Workspace) :
    List Line → Option (List Action)
  | [] => some []
  | line :: lines => do
    let action ← line.action? settings path w
    let actions ← actions? library settings path (line.run library settings w).2 lines
    return action :: actions

/-- The responses to lines that are run one after the other. -/
def responses (library : UrlLibrary) (settings : Settings) (w : Workspace) :
    List Line → List Response
  | [] => []
  | line :: lines =>
    (line.run library settings w).1 ::
      responses library settings (line.run library settings w).2 lines

/-- The replies of one session to actions. -/
def replies (library : UrlLibrary) (s : Session) : List Action → List Reply
  | [] => []
  | action :: actions =>
    (action.perform library s).1 :: replies library (action.perform library s).2 actions

/-- The trees that one session has after actions. -/
def trees (library : UrlLibrary) (s : Session) : List Action → List Forest
  | [] => []
  | action :: actions =>
    (action.perform library s).2.root :: trees library (action.perform library s).2 actions

namespace Response

/-- A response with those notes only that are always shown. -/
def quiet (r : Response) : Response := { r with notes := r.notes.filter (Note.isShown false) }

/-- A reply as a response, without notes. -/
def ofReply (reply : Reply) : Response := ⟨[], .ofReply reply⟩

end Response

/-- A word that is no option. -/
def IsOperand (word : String) : Prop := word ≠ "--" ∧ Arguments.isOption word = false

theorem read?_operand {switches : List Switch} {word : String} {rest : List String}
    (h : IsOperand word) :
    Arguments.read? switches true (word :: rest) =
      (Arguments.read? switches true rest).map (Arguments.withOperand word) := by
  have hoption : ¬ Arguments.isOption word = true := Bool.eq_false_iff.1 h.2
  conv_lhs => unfold Arguments.read?
  rw [if_neg h.1, if_neg hoption, if_pos rfl]

/-- A line without switches is one at the path of the settings. -/
theorem action?_of_read {settings : Settings} {w : Workspace} {words rest : List String}
    {input : List UInt8} {verb : Verb} {action : Action}
    (hinvocation : Invocation.read? words = some ⟨none, false, some verb, rest⟩)
    (hread : Request.read? verb rest = some (.action action)) :
    (Line.mk words input).action? settings (Location.normal settings.storagePath) w =
      some action := by
  unfold Line.action?
  dsimp only
  rw [hinvocation]
  change (if false = true then none else
    if Location.normal settings.storagePath ≠ Location.normal settings.storagePath then none
    else (Request.read? verb rest).bind _) = _
  rw [if_neg Bool.false_ne_true, if_neg (not_not.2 rfl), hread]
  rfl

/-- A line that removes what is at a key. -/
theorem action?_delete {settings : Settings} {w : Workspace} {key : String} {input : List UInt8}
    (hkey : IsOperand key) :
    (Line.mk ["delete", key] input).action? settings (Location.normal settings.storagePath) w =
      some (.delete key) := by
  have hread : Request.read? .delete [key] = some (.action (.delete key)) := by
    unfold Request.read?
    rw [read?_operand hkey]
    rfl
  exact action?_of_read rfl hread

/-! ## One command -/

theorem respond_of_action {library : UrlLibrary} {w : Workspace} {opened : Opened}
    {request : Request} {action : Action} {supply : Supply} (h : request.action? w = some action) :
    respond library { w with supply := supply } opened request =
      act library { w with supply := supply } opened action := by
  cases request with
  | action asked =>
    obtain rfl := Option.some.inj h
    rfl
  | link key value kind base => cases h
  | importFrom source =>
    unfold respond
    dsimp only [Request.action?] at h ⊢
    have hsource : sourceBytes { w with supply := supply } source = sourceBytes w source := rfl
    rw [hsource]
    cases hbytes : sourceBytes w source with
    | error ending =>
      rw [hbytes] at h
      cases h
    | ok bytes =>
      rw [hbytes] at h
      dsimp only
      cases htext : Text.ofUtf8 true 0 bytes with
      | error fault =>
        simp only [Except.toOption, Option.bind_some, htext] at h
        cases h
      | ok text =>
        simp only [Except.toOption, Option.bind_some, htext] at h
        rw [← Option.some.inj h]
  | exportTree target isPrinted =>
    unfold respond
    cases isPrinted with
    | false => cases h
    | true =>
      dsimp only [Request.action?] at h
      split at h
      case isTrue => cases h
      case isFalse hnone =>
        have hnone : target.bind (misnamed? w.files) = none :=
          Option.not_isSome_iff_eq_none.1 hnone
        obtain rfl := Option.some.inj h
        dsimp only
        rw [hnone]
        rfl

theorem run_of_action (library : UrlLibrary) {settings : Settings} {path : String} {w : Workspace}
    {line : Line} {action : Action} {opened : Opened} {notes : List Note}
    (haction : line.action? settings path w = some action)
    (hopen : openAt (line.workspace w) settings path = .ok (opened, notes)) :
    ∃ isVerbose, line.run library settings w =
      (let acted :=
        act library { line.workspace w with supply := opened.session.supply } opened action
       (⟨(notes ++ acted.1.notes).filter (Note.isShown isVerbose), acted.1.ending⟩, acted.2)) := by
  obtain ⟨invocation, hread, h⟩ := Option.bind_eq_some_iff.1 haction
  obtain ⟨verb, hverb, h⟩ := Option.bind_eq_some_iff.1 h
  split at h
  case isTrue => cases h
  case isFalse hnamed =>
    split at h
    case isTrue => cases h
    case isFalse hpath =>
      obtain ⟨request, hrequest, h⟩ := Option.bind_eq_some_iff.1 h
      rw [not_not] at hpath
      have hnone : invocation.storagePath.bind (misnamed? (line.workspace w).files) = none :=
        Option.not_isSome_iff_eq_none.1 hnamed
      refine ⟨invocation.isVerbose, ?_⟩
      unfold Line.run Command.run
      rw [hread]
      dsimp only
      rw [hnone, hverb]
      dsimp only
      rw [hpath, hopen]
      dsimp only
      rw [hrequest]
      dsimp only
      rw [respond_of_action h]

/-- An action that saves nothing leaves the files. -/
theorem keep_of_saves_le {files : Files} {opened : Opened} {reply : Reply} {s : Session}
    (hreply : reply.isUnsaved = false) (hsaves : s.saves ≤ opened.session.saves) :
    keep files opened reply s = (.ok (), files) := by
  unfold keep
  split
  case h_1 => cases hreply
  case h_2 => rw [if_neg hsaves.not_gt]
  case h_3 => rfl

/-- An action that saves its tree leaves it in the file, and one that does not leaves the files. -/
theorem keep_spec {files : Files} {opened : Opened} {reply : Reply} {s : Session}
    (hreply : reply.isUnsaved = false) (hfollows : Session.Follows opened.session s)
    (hkept : opened.session.isKept = true) (hslot : opened.session.slot ≠ .directory)
    (hlow : s.root.IsStorable) :
    (∃ fault, (keep files opened reply s).1 = .error (.file fault)) ∨
      (keep files opened reply s).1 = .ok () ∧
        ((keep files opened reply s).2 = files ∧ s.root = opened.session.root ∨
          (keep files opened reply s).2.find opened.path = .ok (.ofText s.root.recordText)) := by
  cases hfollows.keeping with
  | unchanged hroot _ hsaves =>
    rw [keep_of_saves_le hreply hsaves.le]
    exact .inr ⟨rfl, .inl ⟨rfl, hroot⟩⟩
  | kept _ htext hsaves =>
    have hsaves : opened.session.saves < s.saves := by omega
    unfold keep
    split
    case h_1 => cases hreply
    case h_2 bytes _ hbytes =>
      rw [if_pos hsaves]
      obtain rfl : Text.toUtf8 s.root.recordText.toList = bytes :=
        Slot.file.inj (htext.symm.trans hbytes)
      cases hsaving : files.save opened.path (Text.toUtf8 s.root.recordText.toList) (.ok ()) with
      | mk saving files' =>
        cases saving with
        | error fault => exact .inl ⟨fault, rfl⟩
        | ok done => exact .inr ⟨rfl, .inr (Files.find_of_save hsaving)⟩
    case h_3 _ hnone => exact absurd htext (hnone _)
  | lost hfault =>
    rcases Slot.save_spec opened.session.slot s.root with ⟨-, hok⟩ | ⟨hdirectory | hdeep, -⟩
    · rw [hok] at hfault
      cases hfault
    · exact absurd hdirectory hslot
    · exact absurd hdeep hlow.height_le.not_gt
  | unkept hunkept =>
    rw [hkept] at hunkept
    cases hunkept

/-! ## Opening -/

/-- The tree that is had from a slot, and the supply that is left: the tree that the slot keeps, or
the one that a user starts with. -/
inductive Gives (supply : Supply) : Slot → Forest → Supply → Prop
  | missing :
      Gives supply .missing (supply.labelAll Forest.sample).1 (supply.labelAll Forest.sample).2
  | file {slot : Slot} {root : Forest} (hread : slot.read = .ok root) :
      Gives supply slot root supply

theorem Gives.ne_directory {supply rest : Supply} {slot : Slot} {root : Forest}
    (h : Gives supply slot root rest) : slot ≠ .directory := by
  rintro rfl
  cases h with
  | file hread => cases hread

theorem Gives.openAt_eq {settings : Settings} {w : Workspace} {path : String} {slot : Slot}
    {root : Forest} {rest : Supply} (h : Gives w.supply slot root rest)
    (hfind : w.files.find path = .ok slot) :
    openAt w settings path = .ok (⟨path, .start settings root slot true rest,
      settings.exportFilename⟩, Note.ofOpening path slot) := by
  have hload : slot.load w.supply .sample = .ok (root, rest) := by
    cases h with
    | missing => rfl
    | file hread =>
      unfold Slot.load
      rw [hread]
  have hopen : Session.openSlot settings slot w.supply =
      .ok (.start settings root slot true rest) := by
    unfold Session.openSlot
    rw [hload]
    rfl
  unfold openAt
  rw [hfind]
  change ((Session.openSlot settings slot w.supply).mapError _ >>= _) = _
  rw [hopen]
  rfl

theorem Gives.isQuiet_of_mem_ofOpening {supply rest : Supply} {slot : Slot} {root : Forest}
    {path : String} {note : Note} (h : Gives supply slot root rest)
    (hnote : note ∈ Note.ofOpening path slot) : note.IsQuiet := by
  cases h with
  | missing =>
    obtain rfl := List.mem_singleton.1 hnote
    rfl
  | file hread =>
    unfold Note.ofOpening at hnote
    rw [hread] at hnote
    cases hnote

end KeyTree.Command
