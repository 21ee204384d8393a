import KeyTree.Proofs.Command.Runs
import KeyTree.Proofs.Document.Reloading
import KeyTree.Proofs.Store.Overlong
import KeyTree.Proofs.Tree.Edited

/-!
# What a command that edits or removes acts on

The node is found by the whole path, its siblings by what stands before the last point of it, and the
change is made by identity. Where siblings have different identities all three mean the node that is
shown at the path. The tree that comes of it is in the file afterwards, unless the file cannot be
written: then no file has changed.
-/

namespace KeyTree

namespace Session

variable {s : Session} {path : String} {n : Node}

/-- The node at a path is located within the scope of its container. -/
theorem exists_scope_of_get? (hroot : s.root.IsApart fun _ ↦ True)
    (h : s.get? path = .ok (some n)) :
    ∃ scope, s.locate path = (.ok (some n), { s with scope := scope }) ∧
      n ∈ s.root.within scope := by
  obtain ⟨scope, hscope, hn⟩ := Forest.exists_scope_of_lookup? hroot (eq_ok_of_mapError h)
  refine ⟨scope, ?_, hn⟩
  unfold locate navigate
  rw [h]
  dsimp only
  rw [hscope]
  rfl

/-- What becomes of a session that is to keep a new tree: it goes on with the tree, which its slot has
taken, or the slot does not take it. -/
inductive Stores {α : Type} (s : Session) (new : Forest) (done : α) (lost : SlotFault → α) :
    α × Session → Prop
  | saved {s' : Session} (hroot : s'.root = new) (hslot : s'.slot = .ofText new.recordText)
      (hsaves : s.saves < s'.saves) : Stores s new done lost (done, s')
  | unsaved {s' : Session} {fault : SlotFault} (hfault : s.slot.save new = .error fault) :
      Stores s new done lost (lost fault, s')

theorem stores_commit (hkept : s.isKept = true) (hnonempty : s.root ≠ []) (new : Forest) :
    s.Stores new (.ok ()) (fun fault ↦ .error (.slot fault)) (s.commit new) := by
  let t : Session := { s with root := new }
  have hsave : s.commit new = t.save := by
    rw [commit, List.isEmpty_eq_false_iff.2 hnonempty, Bool.false_and, if_neg Bool.false_ne_true]
  rw [hsave]
  rcases Slot.save_spec s.slot new with ⟨-, hok⟩ | ⟨-, fault, hfault⟩
  · have hsaved : t.save = _ := save_of_ok hkept hok
    rw [hsaved]
    exact .saved rfl rfl (Nat.lt_succ_self s.saves)
  · have hunsaved : t.save = _ := save_of_error hkept hfault
    rw [hunsaved]
    exact .unsaved hfault

end Session

namespace Files

/-- A file that cannot be saved has not been touched. -/
theorem grows_of_save {files files' : Files} {location : String} {bytes : List UInt8}
    {writing : Except FileFault Unit} {fault : FileFault}
    (h : files.save location bytes writing = (.error fault, files')) : files.Grows files' := by
  have hsave := save_cases files location bytes writing rfl
  rw [h] at hsave
  rcases hsave with ⟨-, -, hslots⟩ | ⟨hok, -⟩
  · intro place
    rw [hslots place]
    exact files.grows_makeDirectories (Location.parent location) place
  · cases hok

end Files

namespace Command

/-! ## What an action leaves in the file -/

/-- An action ends so when it has put a new tree into its session. -/
abbrev Acts (s : Session) (new : Forest) (reply : Reply) (acted : Reply × Session) : Prop :=
  s.Stores new reply (fun fault ↦ .failed (.slot fault)) acted

/-- A tree cannot be written into a file: it nests too deeply, or the file cannot be saved. -/
def Unwritable (path : String) (files : Files) (new : Forest) : Prop :=
  encodingLimit < Forest.height new ∨
    ∃ fault, (files.save path (Text.toUtf8 new.recordText.toList) (.ok ())).1 = .error fault

/-- How a command ends whose action changes the tree in a file: the new tree is in the session and in
the file, or it cannot be written there, and of the files nothing has changed but new directories. -/
inductive Keeps (path : String) (files : Files) (new : Forest) (reply : Reply) (root : Forest) :
    Ending → Files → Prop
  | kept {files' : Files} (hroot : root = new)
      (h : files'.find path = .ok (.ofText new.recordText)) :
      Keeps path files new reply root (.ofReply reply) files'
  | failed {fault : Fault} {files' : Files} (hunwritable : Unwritable path files new)
      (h : files.Grows files') : Keeps path files new reply root (.failed fault) files'

theorem Keeps.of_done {path output : String} {files files' : Files} {new root : Forest}
    {reply : Reply} {ending : Ending} (h : Keeps path files new reply root ending files')
    (hdone : ending = .done output) :
    root = new ∧ files'.find path = .ok (.ofText new.recordText) := by
  cases h with
  | kept hroot h => exact ⟨hroot, h⟩
  | failed => cases hdone

variable {library : UrlLibrary} {settings : Settings} {path key : String} {w : Workspace}
  {opened : Opened} {notes : List Note} {new : Forest} {reply : Reply} {n : Node}

/-- What has been saved is put into the file. -/
theorem keep_of_saves_lt (files : Files) {s : Session} {text : String}
    (hreply : reply.isUnsaved = false) (hslot : s.slot = .ofText text)
    (hsaves : opened.session.saves < s.saves) :
    keep files opened reply s =
      ((files.save opened.path (Text.toUtf8 text.toList) (.ok ())).1.mapError .file,
        (files.save opened.path (Text.toUtf8 text.toList) (.ok ())).2) := by
  unfold keep
  split
  case h_1 => cases hreply
  case h_2 bytes _ hbytes =>
    obtain rfl := Slot.file.inj (hslot.symm.trans hbytes)
    rw [if_pos hsaves]
  case h_3 _ hnone => exact absurd hslot (hnone _)

theorem keeps_act {action : Action} (hreply : reply.isUnsaved = false)
    (hopened : opened.session.slot ≠ .directory)
    (h : Acts opened.session new reply (action.perform library opened.session)) :
    Keeps opened.path w.files new reply (action.perform library opened.session).2.root
      (act library w opened action).1.ending (act library w opened action).2.files := by
  unfold act
  generalize action.perform library opened.session = acted at h ⊢
  cases h with
  | saved hroot hslot hsaves =>
    dsimp only
    rw [keep_of_saves_lt w.files hreply hslot hsaves]
    cases hsaving : w.files.save opened.path (Text.toUtf8 new.recordText.toList) (.ok ()) with
    | mk saving files' =>
      cases saving with
      | ok done => exact .kept hroot (Files.find_of_save hsaving)
      | error fault =>
        have hunwritable : Unwritable opened.path w.files new :=
          .inr ⟨fault, congrArg Prod.fst hsaving⟩
        exact .failed hunwritable (Files.grows_of_save hsaving)
  | unsaved hfault =>
    -- The slot of an opened session is no directory, so it is the height of the tree.
    have hunwritable : Unwritable opened.path w.files new := by
      rcases Slot.save_spec opened.session.slot new with ⟨-, hok⟩ | ⟨hdirectory | hdeep, -⟩
      · rw [hok] at hfault
        cases hfault
      · exact absurd hdirectory hopened
      · exact .inl hdeep
    have hgrows := w.files.grows_makeDirectories (Location.parent opened.path)
    dsimp only [keep]
    cases hmade : w.files.makeDirectories (Location.parent opened.path) with
    | mk making files' =>
      rw [hmade] at hgrows
      cases making with
      | ok done => exact .failed hunwritable hgrows
      | error fault => exact .failed hunwritable hgrows

/-- The tree of a slot, and the one that a user starts with, are no higher than what is read. -/
theorem height_le_of_load {slot : Slot} {supply rest : Supply} {root : Forest}
    (h : slot.load supply .sample = .ok (root, rest)) : Forest.height root ≤ decodingLimit := by
  unfold Slot.load at h
  split at h
  case h_1 root' hread =>
    obtain rfl : root' = root := (Prod.mk.inj (Except.ok.inj h)).1
    exact Slot.height_le_of_read hread
  case h_2 => cases h
  case h_3 =>
    obtain rfl : (supply.labelAll Forest.sample).1 = root := congrArg Prod.fst (Except.ok.inj h)
    have hheight : Forest.height (supply.labelAll Forest.sample).1 = 2 := rfl
    rw [hheight]
    decide

/-- A session that has been opened keeps its tree in the file at the path. -/
theorem spec_of_openAt (h : openAt w settings path = .ok (opened, notes)) :
    opened.path = path ∧ opened.session.isKept = true ∧ opened.session.slot ≠ .directory ∧
      Forest.height opened.session.root ≤ decodingLimit := by
  unfold openAt at h
  obtain ⟨slot, -, h⟩ := exists_of_bind_eq_ok h
  obtain ⟨session, hsession, h⟩ := exists_of_bind_eq_ok h
  have hopen := eq_ok_of_mapError hsession
  unfold Session.openSlot at hopen
  obtain ⟨⟨root, supply⟩, hload, hstart⟩ := exists_of_bind_eq_ok hopen
  obtain rfl := (Prod.mk.inj (Except.ok.inj h)).1
  obtain rfl := Except.ok.inj hstart
  refine ⟨rfl, rfl, ?_, height_le_of_load hload⟩
  rintro rfl
  cases hload

theorem keeps_run (library : UrlLibrary) {line : Line} {action : Action}
    (hreply : reply.isUnsaved = false)
    (hopen : openAt w settings path = .ok (opened, notes))
    (haction : line.action? settings path w = some action)
    (h : Acts opened.session new reply (action.perform library opened.session)) :
    Keeps path w.files new reply (action.perform library opened.session).2.root
      (line.run library settings w).1.ending (line.run library settings w).2.files := by
  obtain ⟨isVerbose, hrun⟩ := run_of_action (w := w) library haction hopen
  obtain ⟨rfl, -, hslot, -⟩ := spec_of_openAt hopen
  have hkeeps := keeps_act (w := { line.workspace w with supply := opened.session.supply })
    hreply hslot h
  rw [hrun]
  dsimp only [Line.workspace] at hkeeps ⊢
  exact hkeeps

/-- A command that ends well has done what its action replies. -/
theorem exists_done_of_run {line : Line} {action : Action}
    (hopen : openAt w settings path = .ok (opened, notes))
    (haction : line.action? settings path w = some action)
    (hstatus : (line.run library settings w).1.status = 0) :
    ∃ output, (action.perform library opened.session).1 = .done output := by
  obtain ⟨isVerbose, hrun⟩ := run_of_action (w := w) library haction hopen
  obtain ⟨output, hdone⟩ := Response.exists_done_of_status hstatus
  rw [hrun] at hdone
  dsimp only [act] at hdone
  split at hdone
  case h_1 => exact ⟨output, Ending.eq_done_of_ofReply hdone⟩
  case h_2 => cases hdone

/-! ## Editing and removing at a path -/

section Located

variable {s : Session} {scope : Scope} (hkept : s.isKept = true) (hnonempty : s.root ≠ [])
  (hlocate : s.locate key = (.ok (some n), { s with scope := scope }))

include hkept hnonempty hlocate

theorem acts_performDelete (hroom : Forest.fits callLimit scope s.root = true) :
    Acts s (s.root.delete n.id scope) (.line s!"Deleted \"{key}\"") (Action.performDelete s key) := by
  have hdelete : s.root.boundedDelete n.id scope = .ok (s.root.delete n.id scope) := if_pos hroom
  have hstores := Session.stores_commit (s := { s with scope := scope }) hkept hnonempty
    (s.root.delete n.id scope)
  unfold Action.performDelete Session.remove
  rw [hlocate]
  dsimp only
  rw [hdelete]
  dsimp only
  generalize Session.commit { s with scope := scope } (s.root.delete n.id scope) = step
    at hstores ⊢
  cases hstores with
  | saved hroot hslot hsaves => exact .saved hroot hslot hsaves
  | unsaved hfault => exact .unsaved hfault

theorem acts_performEdit {value : String} (hedit : s.root.edit n.id (.text value) scope = .ok new) :
    Acts s new (.line s!"Updated key \"{key}\"") (Action.performEdit s key value) := by
  have hstores := Session.stores_commit (s := { s with scope := scope }) hkept hnonempty new
  unfold Action.performEdit Session.edit
  rw [hlocate]
  dsimp only
  rw [hedit]
  dsimp only
  generalize Session.commit { s with scope := scope } new = step at hstores ⊢
  cases hstores with
  | saved hroot hslot hsaves => exact .saved hroot hslot hsaves
  | unsaved hfault => exact .unsaved hfault

omit hkept hnonempty in
/-- A value that is refused is not done. -/
theorem exists_edit_of_done {value output : String}
    (hdone : (Action.performEdit s key value).1 = .done output) :
    ∃ new, s.root.edit n.id (.text value) scope = .ok new := by
  cases hedit : s.root.edit n.id (.text value) scope with
  | ok new => exact ⟨new, rfl⟩
  | error fault =>
    unfold Action.performEdit Session.edit at hdone
    rw [hlocate] at hdone
    dsimp only at hdone
    rw [hedit] at hdone
    cases fault with
    | refused => cases hdone
    | limit => cases hdone

end Located

/-! ## A tree in one file -/

/-- A working directory with one tree in a file of this name. -/
def holding (name : String) : Workspace :=
  ⟨[(Place.working.child name, .ofText (Forest.recordText Forest.stale))], [], ⟨0⟩⟩

theorem slot_holding (name : String) : (holding name).files.slot (Place.working.child name) =
    .ofText (Forest.recordText Forest.stale) :=
  Files.slot_put_self [] (.ofText (Forest.recordText Forest.stale)) (List.cons_ne_nil name [])

theorem find_holding {name : List Char} (hname : Location.IsName name) (hzero : '\x00' ∉ name)
    (hshort : (String.ofList name).utf8ByteSize ≤ Files.nameLimit) :
    (holding (String.ofList name)).files.find (String.ofList name) =
      .ok (.ofText (Forest.recordText Forest.stale)) := by
  have hlimit : Files.nameLimit ≤ Files.locationLimit := by decide
  rw [Files.find, Files.resolve_of_isName hname hzero (hshort.trans hlimit),
    if_neg hshort.not_gt]
  exact congrArg Except.ok (slot_holding (String.ofList name))

/-- The tree that is open then. -/
def held (settings : Settings) (name : String) : Opened :=
  ⟨name, .start settings Forest.stale (.ofText (Forest.recordText Forest.stale)) true ⟨0⟩,
    settings.exportFilename⟩

/-- The second item of the list, which has the name that a third one has when it is added. -/
def behind : Node := ⟨"m", "2", .leaf (.text "t")⟩

theorem get?_held (settings : Settings) (name : String) :
    (held settings name).session.get? "l.2" = .ok (some behind) := rfl

theorem openAt_holding (settings : Settings) {name : String}
    (hfind : (holding name).files.find name = .ok (.ofText (Forest.recordText Forest.stale))) :
    openAt (holding name) settings name = .ok (held settings name,
      Note.ofOpening name (.ofText (Forest.recordText Forest.stale))) := by
  have hnames : ∀ n ∈ Forest.stale, n.payload.HasUniqueNames := by
    simp only [Forest.stale, List.forall_mem_singleton]
    refine .branch (Shape.admits_list _) ?_
    simp only [List.forall_mem_cons]
    refine ⟨.branch (Shape.admits_dictionary.2 (by decide)) ?_, .leaf _, List.forall_mem_nil _⟩
    exact List.forall_mem_singleton.2 (.leaf _)
  have hread := Slot.read_ofText_recordText hnames ⟨by decide, by decide⟩
  exact Gives.openAt_eq (.file hread) hfind

/-! ## A file whose name is long -/

/-- A command keeps nothing in a file whose name leaves no room for that of a draft. -/
theorem run_of_isOverlong {line : Line} {action : Action} {s : Session} {text : String}
    {name : List Char} (hname : Files.IsOverlong name)
    (hopen : openAt w settings (String.ofList name) = .ok (opened, notes))
    (haction : line.action? settings (String.ofList name) w = some action)
    (hperform : action.perform library opened.session = (reply, s))
    (hreply : reply.isUnsaved = false) (hslot : s.slot = .ofText text)
    (hsaves : opened.session.saves < s.saves) :
    (line.run library settings w).1.ending = .failed (.file .nameTooLong) ∧
      (line.run library settings w).2.files = w.files := by
  obtain ⟨isVerbose, hrun⟩ := run_of_action (w := w) library haction hopen
  obtain ⟨hpath, -⟩ := spec_of_openAt hopen
  have hkeep := keep_of_saves_lt (line.workspace w).files hreply hslot hsaves
  rw [hpath, hname.save_eq _ _ (.ok ())] at hkeep
  rw [hrun]
  unfold act
  rw [hperform]
  dsimp only
  rw [hkeep]
  exact ⟨rfl, rfl⟩

/-- A name that a file can have, but that leaves no room for that of a draft. -/
def longName : String := String.ofList (List.replicate 250 'a')

def longSettings : Settings := { besideSettings with storagePath := longName }

theorem utf8ByteSize_long : (String.ofList (List.replicate 250 'a')).utf8ByteSize = 250 := by
  decide +kernel

theorem isOverlong_long : Files.IsOverlong (List.replicate 250 'a') := by
  have hmem {c : Char} (h : c ≠ 'a') : c ∉ List.replicate 250 'a' :=
    fun hc ↦ h (List.eq_of_mem_replicate hc)
  have hlength : 2 < (List.replicate 250 'a').length := by
    rw [List.length_replicate]
    decide
  have hname : Location.IsName (List.replicate 250 'a') := .of_length hlength (hmem (by decide))
  have hsize := Files.utf8ByteSize_draftName hname
  rw [utf8ByteSize_long] at hsize
  refine ⟨hname, hmem (by decide), ?_, ?_⟩
  · rw [hsize]
    decide
  · rw [hsize]
    decide

theorem find_holding_long :
    (holding longName).files.find longName = .ok (.ofText (Forest.recordText Forest.stale)) := by
  apply find_holding isOverlong_long.isName isOverlong_long.not_mem
  rw [utf8ByteSize_long]
  decide

/-! ## The node that a path shows -/

/-- The node that commands on a path act on, and what they leave in the file. -/
structure Targets (library : UrlLibrary) (settings : Settings) (path : String) (w : Workspace)
    (opened : Opened) (key : String) (n : Node) (scope : Scope) : Prop where
  located : opened.session.locate key = (.ok (some n), { opened.session with scope := scope })
  mem : n ∈ opened.session.root.within scope
  deleted : ∀ line : Line, line.action? settings path w = some (.delete key) →
    ∃ before after new,
      Forest.ReplacesWithin (before ++ n :: after) (before ++ after) scope opened.session.root new ∧
      Keeps path w.files new (.line s!"Deleted \"{key}\"")
        ((Action.delete key).perform library opened.session).2.root
        (line.run library settings w).1.ending (line.run library settings w).2.files
  edited : ∀ (line : Line) (value : String),
    line.action? settings path w = some (.edit key value) →
    (line.run library settings w).1.status = 0 →
    ∃ payload before after new, n.isContainer = false ∧
      n.kind.coerce (.text value) = .ok payload ∧
      Forest.ReplacesWithin (before ++ n :: after) (before ++ { n with payload := payload } :: after)
        scope opened.session.root new ∧
      ((Action.edit key value).perform library opened.session).2.root = new ∧
      (line.run library settings w).2.files.find path = .ok (.ofText new.recordText)

/-- In a tree where siblings have different identities, commands act on the node that is shown. -/
theorem exists_targets (hopen : openAt w settings path = .ok (opened, notes))
    (hroot : opened.session.root.IsApart fun _ ↦ True)
    (hget : opened.session.get? key = .ok (some n)) :
    ∃ scope, Targets library settings path w opened key n scope := by
  obtain ⟨scope, hlocate, hn⟩ := Session.exists_scope_of_get? hroot hget
  obtain ⟨-, hkept, -, hheight⟩ := spec_of_openAt hopen
  have hnonempty := Forest.ne_nil_of_mem_within hn
  refine ⟨scope, hlocate, hn, fun line haction ↦ ?_, fun line value haction hstatus ↦ ?_⟩
  · obtain ⟨before, after, hreplaces⟩ := Forest.delete_of_mem hroot hn
    obtain ⟨siblings, hwithin⟩ := Forest.exists_within?_of_isLive (Forest.isLive_of_mem hroot hn)
    have hlength : scope.length ≤ decodingLimit :=
      (Forest.length_le_height_of_within? hwithin).trans hheight
    have hlimit : decodingLimit < callLimit := by decide
    have hroom := Forest.fits_of_length_lt (hlength.trans_lt hlimit) opened.session.root
    have hacts := acts_performDelete hkept hnonempty hlocate hroom
    exact ⟨before, after, _, hreplaces, keeps_run library rfl hopen haction hacts⟩
  · obtain ⟨output, hdone⟩ := exists_done_of_run hopen haction hstatus
    obtain ⟨new, hedit⟩ := exists_edit_of_done hlocate hdone
    have hacts := acts_performEdit hkept hnonempty hlocate hedit
    have hkeeps := keeps_run library rfl hopen haction hacts
    obtain ⟨hleaf, payload, hcoerce, before, after, hreplaces⟩ := Forest.exists_of_edit hroot hn hedit
    obtain ⟨printed, hending⟩ := Response.exists_done_of_status hstatus
    exact ⟨payload, before, after, new, hleaf, hcoerce, hreplaces, hkeeps.of_done hending⟩

theorem exists_targets_stale :
    openAt (holding "jar.json") besideSettings "jar.json" = .ok (held besideSettings "jar.json",
        Note.ofOpening "jar.json" (.ofText (Forest.recordText Forest.stale))) ∧
      ((held besideSettings "jar.json").session.root.IsApart fun _ ↦ True) ∧
      (held besideSettings "jar.json").session.get? "l.2" = .ok (some behind) ∧
      ∃ scope, Targets Url.library besideSettings "jar.json" (holding "jar.json")
        (held besideSettings "jar.json") "l.2" behind scope := by
  have hfind : (holding "jar.json").files.find "jar.json" =
      .ok (.ofText (Forest.recordText Forest.stale)) := rfl
  have hopen := openAt_holding besideSettings hfind
  have hget := get?_held besideSettings "jar.json"
  exact ⟨hopen, Forest.isApart_stale, hget, exists_targets hopen Forest.isApart_stale hget⟩

/-- A node is found in a file with a long name, but it cannot be removed from the file. -/
theorem delete_unsaved :
    openAt (holding longName) longSettings longName = .ok (held longSettings longName,
        Note.ofOpening longName (.ofText (Forest.recordText Forest.stale))) ∧
      ((held longSettings longName).session.root.IsApart fun _ ↦ True) ∧
      (held longSettings longName).session.get? "l.2" = .ok (some behind) ∧
      ((Line.mk ["delete", "l.2"] []).run Url.library longSettings (holding longName)).1.ending =
        .failed (.file .nameTooLong) ∧
      ((Line.mk ["delete", "l.2"] []).run Url.library longSettings (holding longName)).2.files =
        (holding longName).files := by
  have hopen := openAt_holding longSettings find_holding_long
  have haction : (Line.mk ["delete", "l.2"] []).action? longSettings longName (holding longName) =
      some (.delete "l.2") := by
    have hnormal : Location.normal longSettings.storagePath = longName :=
      isOverlong_long.isName.normal_eq
    rw [← hnormal]
    exact action?_delete ⟨by decide, rfl⟩
  refine ⟨hopen, Forest.isApart_stale, get?_held longSettings longName, ?_⟩
  exact run_of_isOverlong isOverlong_long hopen haction rfl rfl rfl Nat.zero_lt_one

end Command

end KeyTree
