import KeyTree.Proofs.Document.Restore
import KeyTree.Proofs.Store.Below
import KeyTree.Store.Calls

/-!
# What becomes of a store

A call leaves at most one file, that of the store. A tree that has been taken is given back as long
as nobody writes to the file, and a tree that is not taken leaves the file as it was, or the
directory in its place. But a few trees are taken that are too high to be read again, and in place of
them the fallback is loaded.
-/

namespace KeyTree

namespace Files

variable {files files' : Files}

/-- There are no files but that at a place. -/
def OnlyAt (place : Place) (files : Files) : Prop :=
  ∀ other content, files.slot other = .file content → other = place

theorem onlyAt_nil (place : Place) : OnlyAt place [] := by
  intro other content h
  rw [slot] at h
  split at h <;> cases h

theorem OnlyAt.grows {place : Place} (h : files.OnlyAt place) (hgrows : files.Grows files') :
    files'.OnlyAt place := by
  intro other content hother
  rcases hgrows other with hsame | ⟨-, hmade⟩
  · exact h other content (hsame.symm.trans hother)
  · rw [hmade] at hother
    cases hother

theorem slot_of_write {location : String} {bytes : List UInt8}
    (h : files.write location bytes = .ok files') (place : Place) :
    files'.slot place =
      if place = Location.place location then .file bytes else files.slot place := by
  obtain ⟨target, htarget, h⟩ := exists_of_bind_eq_ok h
  obtain rfl := resolve_eq_place htarget
  obtain ⟨hslot, rfl⟩ : files.slot (Location.place location) ≠ .directory ∧
      files.put (Location.place location) (.file bytes) = files' := by
    cases hslot : files.slot (Location.place location) with
    | directory =>
      rw [hslot] at h
      cases h
    | missing | file =>
      rw [hslot] at h
      exact ⟨Slot.noConfusion, Except.ok.inj h⟩
  by_cases hplace : place = Location.place location
  · rw [if_pos hplace, hplace, slot_put_self _ _ (names_ne_nil_of_slot hslot)]
  · rw [if_neg hplace, slot_put_of_ne _ _ (Ne.symm hplace)]

/-- A file stays where it is found. -/
theorem Grows.find_eq (hgrows : files.Grows files') {location : String} {content : List UInt8}
    (h : files.find location = .ok (.file content)) :
    files'.find location = .ok (.file content) := by
  unfold find at h
  cases hplace : files.resolve location with
  | error fault =>
    rw [hplace] at h
    cases fault <;> cases h
  | ok place =>
    rw [hplace] at h
    have hslot : files.slot place = .file content := Except.ok.inj h
    rw [find, hgrows.resolve hplace]
    exact congrArg Except.ok ((hgrows.slot_eq (by simp [hslot])).trans hslot)

end Files

namespace StoreReply

variable {result : Except StoreFault Unit}

@[simp]
theorem ofResult_eq_done_iff : ofResult result = done ↔ result = .ok () := by
  cases result <;> simp [ofResult]

@[simp]
theorem ofResult_eq_failed_iff {fault : StoreFault} :
    ofResult result = failed fault ↔ result = .error fault := by
  cases result <;> simp [ofResult]

end StoreReply

namespace Store

/-! ## Single calls -/

variable {store : Store} {state : StoreState}

/-- The place of the file. -/
abbrev place (store : Store) : Place := Location.place store.location

@[simp]
theorem reply_save (root : Forest) (writing : Except FileFault Unit) :
    (store.call state (.save root writing)).1 =
      .ofResult (store.save root writing state.files).1 := by
  rw [call]

@[simp]
theorem files_save (root : Forest) (writing : Except FileFault Unit) :
    (store.call state (.save root writing)).2.files = (store.save root writing state.files).2 := by
  rw [call]

@[simp]
theorem files_write (content : List UInt8) :
    (store.call state (.write content)).2.files = (store.write content state.files).2 := by
  rw [call]

@[simp]
theorem files_load : (store.call state .load).2.files = state.files := by
  unfold call
  dsimp only
  split <;> rfl

/-- What is read from the file is loaded. -/
theorem reply_load {slot : Slot} {root : Forest}
    (hfind : state.files.find store.location = .ok slot) (hread : slot.read = .ok root) :
    (store.call state .load).1 = .loaded root := by
  have hload : store.load state = .ok (root, state.supply) := by
    have hslot : slot.load state.supply store.fallback = .ok (root, state.supply) := by
      rw [Slot.load, hread]
    rw [load, hfind]
    exact congrArg (Except.mapError StoreFault.slot) hslot
  rw [call, hload]

/-- The fallback is loaded, with new identities, where no tree is read from the file. -/
theorem reply_load_fallback {slot : Slot} {fault : RecordFault}
    (hfind : state.files.find store.location = .ok slot)
    (hread : slot.read = .error (.unreadable fault)) :
    (store.call state .load).1 = .loaded (state.supply.labelAll store.fallback).1 := by
  have hload : store.load state = .ok (state.supply.labelAll store.fallback) := by
    have hslot : slot.load state.supply store.fallback =
        .ok (state.supply.labelAll store.fallback) := by
      rw [Slot.load, hread]
    rw [load, hfind]
    exact congrArg (Except.mapError StoreFault.slot) hslot
  rw [call, hload]

/-- How a tree is saved. Directories are made for the file. Then the file holds the records, or, if the
tree is refused, nothing else changes. -/
theorem save_cases {ready : Files} (store : Store) (state : StoreState) (root : Forest)
    (writing : Except FileFault Unit)
    (hready : (state.files.makeDirectories (Location.parent store.location)).2 = ready) :
    (∃ fault, (store.save root writing state.files).1 = .error fault ∧
      ∀ place, (store.save root writing state.files).2.slot place = ready.slot place) ∨
    ((store.save root writing state.files).1 = .ok () ∧ Forest.height root ≤ encodingLimit ∧
      ready.slot store.place ≠ .directory ∧
      (store.save root writing state.files).2.find store.location =
        .ok (.ofText root.recordText) ∧
      ∀ place, (store.save root writing state.files).2.slot place =
        if place = store.place then .ofText root.recordText
        else ready.slot place) := by
  unfold save
  split
  case isTrue =>
    left
    rcases hmade : state.files.makeDirectories (Location.parent store.location) with
      ⟨fault | done, made⟩
    · obtain rfl : made = ready := by rw [← hready, hmade]
      exact ⟨_, rfl, fun _ ↦ rfl⟩
    · obtain rfl : made = ready := by rw [← hready, hmade]
      exact ⟨_, rfl, fun _ ↦ rfl⟩
  case isFalse hheight =>
    have hsave := Files.save_cases _ _ (Text.toUtf8 root.recordText.toList) writing hready
    rcases hsaved :
        state.files.save store.location (Text.toUtf8 root.recordText.toList) writing with
      ⟨saving, saved⟩
    rw [hsaved] at hsave
    rcases hsave with ⟨fault, hfault, hslots⟩ | ⟨hdone, -, hslot, hslots⟩
    · left
      obtain rfl : saving = .error fault := hfault
      exact ⟨_, rfl, hslots⟩
    · right
      obtain rfl : saving = .ok () := hdone
      exact ⟨rfl, Nat.not_lt.1 hheight, hslot, Files.find_of_save hsaved, hslots⟩

section

variable {root : Forest} {writing : Except FileFault Unit}

/-- For a tree that is refused nothing but directories is made. -/
theorem slot_of_save_error {fault : StoreFault}
    (h : (store.save root writing state.files).1 = .error fault) (place : Place) :
    (store.save root writing state.files).2.slot place =
      (state.files.makeDirectories (Location.parent store.location)).2.slot place := by
  rcases save_cases store state root writing rfl with ⟨fault', -, hslots⟩ | ⟨hdone, -⟩
  · exact hslots place
  · rw [h] at hdone
    cases hdone

/-- The records of a tree that is taken are in the file. -/
theorem find_of_save_ok (h : (store.save root writing state.files).1 = .ok ()) :
    (store.save root writing state.files).2.find store.location =
      .ok (.ofText root.recordText) := by
  rcases save_cases store state root writing rfl with ⟨fault, hfault, -⟩ | ⟨-, -, -, hfind, -⟩
  · rw [h] at hfault
    cases hfault
  · exact hfind

end

theorem grows_makeDirectory : state.files.Grows (store.call state .makeDirectory).2.files :=
  Files.grows_makeDirectories state.files store.location

/-- What a call changes: there may be new directories, and a file at the place of the store. -/
theorem call_cases (store : Store) (state : StoreState) (call : StoreCall) :
    ∃ ready, state.files.Grows ready ∧
      ((∀ place, (store.call state call).2.files.slot place = ready.slot place) ∨
        ∃ content, ∀ place, (store.call state call).2.files.slot place =
          if place = store.place then .file content else ready.slot place) := by
  have hparent := Files.grows_makeDirectories state.files (Location.parent store.location)
  cases call with
  | load => exact ⟨state.files, .refl _, .inl fun _ ↦ by rw [files_load]⟩
  | makeDirectory => exact ⟨_, grows_makeDirectory, .inl fun _ ↦ rfl⟩
  | save root writing =>
    refine ⟨_, hparent, ?_⟩
    rcases save_cases store state root writing rfl with ⟨fault, -, hslots⟩ | ⟨-, -, -, -, hslots⟩
    · exact .inl hslots
    · exact .inr ⟨Text.toUtf8 root.recordText.toList, hslots⟩
  | write content =>
    rw [files_write]
    unfold write
    rcases hmade : state.files.makeDirectories (Location.parent store.location) with
      ⟨fault | done, made⟩
    · rw [hmade] at hparent
      exact ⟨made, hparent, .inl fun _ ↦ rfl⟩
    · rw [hmade] at hparent
      refine ⟨made, hparent, ?_⟩
      dsimp only
      cases hwrite : made.write store.location content with
      | error fault => exact .inl fun _ ↦ rfl
      | ok written => exact .inr ⟨content, Files.slot_of_write hwrite⟩

/-- A call leaves no file but that of the store. -/
theorem onlyAt_call (h : state.files.OnlyAt store.place) (call : StoreCall) :
    (store.call state call).2.files.OnlyAt store.place := by
  obtain ⟨ready, hgrows, hslots | ⟨content, hslots⟩⟩ := call_cases store state call
  · intro other content hother
    rw [hslots] at hother
    exact h.grows hgrows other content hother
  · intro other content' hother
    rw [hslots] at hother
    by_contra hne
    rw [if_neg hne] at hother
    exact hne (h.grows hgrows other content' hother)

/-- A tree that is refused leaves what is at the place of the store. -/
theorem slot_of_refused (hbelow : Location.IsBelow store.location) {root : Forest}
    {writing : Except FileFault Unit} {fault : StoreFault}
    (h : (store.call state (.save root writing)).1 = .failed fault) :
    (store.call state (.save root writing)).2.files.slot store.place =
      state.files.slot store.place := by
  rw [reply_save, StoreReply.ofResult_eq_failed_iff] at h
  rw [files_save, slot_of_save_error h, Files.slot_of_makeDirectories_parent hbelow]

/-- No tree takes the place of a directory. -/
theorem refused_of_directory (h : state.files.slot store.place = .directory) (root : Forest)
    (writing : Except FileFault Unit) :
    ∃ fault, (store.call state (.save root writing)).1 = .failed fault := by
  have hparent := Files.grows_makeDirectories state.files (Location.parent store.location)
  simp only [reply_save, StoreReply.ofResult_eq_failed_iff]
  rcases save_cases store state root writing rfl with ⟨fault, hfault, -⟩ | ⟨-, -, hslot, -⟩
  · exact ⟨fault, hfault⟩
  · refine absurd ?_ hslot
    rw [hparent.slot_eq (by simp [h]), h]

/-- No tree is taken whose file cannot be written. -/
theorem refused_of_writing (root : Forest) (fault : FileFault) :
    ∃ fault', (store.call state (.save root (.error fault))).1 = .failed fault' := by
  simp only [reply_save, StoreReply.ofResult_eq_failed_iff]
  unfold save
  split
  case isTrue =>
    rcases state.files.makeDirectories (Location.parent store.location) with ⟨fault' | done, made⟩
    · exact ⟨_, rfl⟩
    · exact ⟨_, rfl⟩
  case isFalse =>
    obtain ⟨fault', hfault⟩ := state.files.exists_save_error store.location
      (Text.toUtf8 root.recordText.toList) fault
    exact ⟨.file fault', congrArg (Except.mapError StoreFault.file) hfault⟩

/-! ## Runs -/

/-- A call that leaves the file as it is: others write nothing, and no tree is taken. -/
def IsQuiet (store : Store) (state : StoreState) : StoreCall → Prop
  | .load | .makeDirectory => True
  | .save root writing => ∃ fault, (store.call state (.save root writing)).1 = .failed fault
  | .write _ => False

def IsQuietRun (store : Store) : StoreState → List StoreCall → Prop
  | _, [] => True
  | state, call :: calls =>
    store.IsQuiet state call ∧ store.IsQuietRun (store.call state call).2 calls

theorem grows_of_isQuiet {call : StoreCall} (h : store.IsQuiet state call) :
    state.files.Grows (store.call state call).2.files := by
  cases call with
  | load =>
    rw [files_load]
    exact .refl _
  | makeDirectory => exact grows_makeDirectory
  | save root writing =>
    obtain ⟨fault, hfault⟩ := h
    rw [reply_save, StoreReply.ofResult_eq_failed_iff] at hfault
    intro place
    rw [files_save, slot_of_save_error hfault]
    exact Files.grows_makeDirectories state.files (Location.parent store.location) place
  | write content => exact h.elim

theorem grows_of_isQuietRun {calls : List StoreCall} (h : store.IsQuietRun state calls) :
    state.files.Grows (store.run state calls).files := by
  induction calls generalizing state with
  | nil => exact .refl _
  | cons call calls ih => exact (grows_of_isQuiet h.1).trans (ih h.2)

theorem onlyAt_run (h : state.files.OnlyAt store.place)
    (calls : List StoreCall) :
    (store.run state calls).files.OnlyAt store.place := by
  induction calls generalizing state with
  | nil => exact h
  | cons call calls ih => exact ih (onlyAt_call h call)

section

variable {root : Forest} {writing : Except FileFault Unit} {later : List StoreCall}

/-- The records of a tree that has been taken stay in the file. -/
theorem find_of_saved (hsaved : (store.call state (.save root writing)).1 = .done)
    (hquiet : store.IsQuietRun (store.call state (.save root writing)).2 later) :
    (store.run (store.call state (.save root writing)).2 later).files.find store.location =
      .ok (.ofText root.recordText) := by
  rw [reply_save, StoreReply.ofResult_eq_done_iff] at hsaved
  exact (grows_of_isQuietRun hquiet).find_eq (find_of_save_ok hsaved)

/-- A tree that has been taken is given back if it is low enough to be read. -/
theorem loaded_of_saved (hnames : ∀ n ∈ root, n.payload.HasUniqueNames)
    (hheight : Forest.height root ≤ decodingLimit)
    (hsaved : (store.call state (.save root writing)).1 = .done)
    (hquiet : store.IsQuietRun (store.call state (.save root writing)).2 later) :
    (store.call (store.run (store.call state (.save root writing)).2 later) .load).1 =
      .loaded (Forest.mapLeaves Leaf.withoutNegativeZero root) :=
  reply_load (find_of_saved hsaved hquiet)
    (Slot.read_ofText_recordText hnames (Forest.isStorable_iff.2 hheight))

/-- In place of a tree that has been taken, but is too high to be read, the fallback is given. -/
theorem loaded_fallback_of_saved (hheight : decodingLimit < Forest.height root)
    (hsaved : (store.call state (.save root writing)).1 = .done)
    (hquiet : store.IsQuietRun (store.call state (.save root writing)).2 later)
    {reached : StoreState}
    (hreached : store.run (store.call state (.save root writing)).2 later = reached) :
    (store.call reached .load).1 = .loaded (reached.supply.labelAll store.fallback).1 := by
  subst hreached
  exact reply_load_fallback (find_of_saved hsaved hquiet)
    (Slot.read_ofText_recordText_of_lt hheight)

end

/--
Whatever happens to a store below the working directory, the only file is the one at its place. A tree
that is refused, as any is where a directory is at that place, leaves what is there, whether it could
not be written or not be moved. A tree that is taken is loaded as long as others write nothing and no
other tree is taken, with all its identities, but with zero for a negative zero. In place of a tree
that is too high for reading, though it has been taken, the fallback is loaded.
-/
theorem intact_of_run (hbelow : Location.IsBelow store.location) (supply : Supply)
    (calls : List StoreCall) {reached : StoreState}
    (hreached : store.run ⟨[], supply⟩ calls = reached) :
    store.place.isBelow = true ∧
    reached.files.OnlyAt store.place ∧
    (∀ root writing fault, (store.call reached (.save root writing)).1 = .failed fault →
      (store.call reached (.save root writing)).2.files.slot store.place =
        reached.files.slot store.place) ∧
    (reached.files.slot store.place = .directory →
      ∀ root writing, ∃ fault, (store.call reached (.save root writing)).1 = .failed fault) ∧
    ∀ root writing later last, (store.call reached (.save root writing)).1 = .done →
      store.IsQuietRun (store.call reached (.save root writing)).2 later →
      store.run (store.call reached (.save root writing)).2 later = last →
        (Forest.height root ≤ decodingLimit → (∀ n ∈ root, n.payload.HasUniqueNames) →
          (store.call last .load).1 = .loaded (Forest.mapLeaves Leaf.withoutNegativeZero root)) ∧
        (decodingLimit < Forest.height root →
          (store.call last .load).1 = .loaded (last.supply.labelAll store.fallback).1) := by
  have honly : reached.files.OnlyAt store.place := by
    rw [← hreached]
    exact onlyAt_run (Files.onlyAt_nil _) calls
  refine ⟨hbelow.isBelow_place, honly, ?_, refused_of_directory, ?_⟩
  · intro root writing fault hfailed
    exact slot_of_refused hbelow hfailed
  · intro root writing later last hsaved hquiet hlast
    refine ⟨fun hheight hnames ↦ ?_, fun hheight ↦ ?_⟩
    · rw [← hlast]
      exact loaded_of_saved hnames hheight hsaved hquiet
    · exact loaded_fallback_of_saved hheight hsaved hquiet hlast

/-- A store in a directory of its own. -/
def nested : Store := ⟨"a/b.json", []⟩

/-- A list with a negative zero in it. -/
def signed : Forest :=
  [⟨"i", "x", .branch .list [⟨"j", "0", .leaf (.number (Quanta.toFloat true 0))⟩]⟩]

/-- The list is loaded after others have written nonsense before it was taken and it could not be
written once more. It is refused where others have made a directory. -/
theorem intact_nested :
    (nested.call (nested.run (nested.call (nested.run ⟨[], ⟨0⟩⟩ [.write [1]])
      (.save signed (.ok ()))).2 [.load, .save [] (.error .full), .makeDirectory]) .load).1 =
        .loaded (Forest.mapLeaves Leaf.withoutNegativeZero signed) ∧
    (nested.call (nested.run ⟨[], ⟨0⟩⟩ [.makeDirectory]) (.save signed (.ok ()))).2.files.slot
      nested.place = .directory := by
  have hbelow : Location.IsBelow nested.location := by
    refine ⟨[['a'], ['b', '.', 'j', 's', 'o', 'n']], List.cons_ne_nil _ _, ?_, rfl⟩
    simp only [List.forall_mem_cons]
    exact ⟨⟨by decide, by decide, by decide, by decide⟩,
      ⟨by decide, by decide, by decide, by decide⟩, fun name hname ↦ by cases hname⟩
  have hnames : ∀ n ∈ signed, n.payload.HasUniqueNames := by
    simp only [signed, List.forall_mem_cons]
    refine ⟨.branch (Shape.admits_list _) ?_, fun n hn ↦ by cases hn⟩
    simp only [List.forall_mem_cons]
    exact ⟨.leaf _, fun n hn ↦ by cases hn⟩
  obtain ⟨-, -, -, -, hloaded⟩ := intact_of_run hbelow ⟨0⟩ [.write [1]] rfl
  obtain ⟨-, -, hkept, hrefused, -⟩ := intact_of_run hbelow ⟨0⟩ [.makeDirectory] rfl
  constructor
  · exact (hloaded signed (.ok ()) [.load, .save [] (.error .full), .makeDirectory] _ rfl
      ⟨trivial, refused_of_writing [] .full, trivial, trivial⟩ rfl).1 (by decide) hnames
  · obtain ⟨fault, hfault⟩ := hrefused rfl signed (.ok ())
    exact (hkept signed (.ok ()) fault hfault).trans rfl

/-- A text at the end of a path of as many segments as there may be. -/
def towering : Forest :=
  [Forest.chain ⟨0⟩ (.leaf (.text "x")) "a" (List.replicate (encodingLimit - 1) "a")]

/-- Not every tree that has been taken is loaded, though nobody writes to the file. -/
theorem towering_not_loaded :
    (∀ n ∈ towering, n.payload.HasUniqueNames) ∧
      (nested.call ⟨[], ⟨0⟩⟩ (.save towering (.ok ()))).1 = .done ∧
      (nested.call (nested.call ⟨[], ⟨0⟩⟩ (.save towering (.ok ()))).2 .load).1 = .loaded [] ∧
      Forest.mapLeaves Leaf.withoutNegativeZero towering ≠ [] := by
  have hheight : Forest.height towering = encodingLimit := by
    rw [towering, Forest.height_singleton, Forest.height_chain_leaf, List.length_replicate]
    rfl
  have hsaved : (nested.call ⟨[], ⟨0⟩⟩ (.save towering (.ok ()))).1 = .done := by
    have hlow : ¬ encodingLimit < Forest.height towering := by
      rw [hheight]
      exact lt_irrefl _
    have hsave (bytes : List UInt8) : (Files.save [] nested.location bytes (.ok ())).1 = .ok () :=
      rfl
    rw [reply_save, StoreReply.ofResult_eq_done_iff, save, if_neg hlow]
    exact congrArg (Except.mapError StoreFault.file) (hsave (Text.toUtf8 towering.recordText.toList))
  have hbare : Payload.IsBare (.leaf (.text "x")) := rfl
  refine ⟨?_, hsaved, ?_, ?_⟩
  · rw [towering, List.forall_mem_singleton]
    exact (Forest.chain_spec ⟨0⟩ hbare "a" _).2.1
  · have hdeep : decodingLimit < Forest.height towering := by
      rw [hheight]
      decide
    exact @loaded_fallback_of_saved nested ⟨[], ⟨0⟩⟩ towering (.ok ()) [] hdeep hsaved trivial _ rfl
  · rw [towering, Forest.mapLeaves]
    exact List.cons_ne_nil _ _

end Store

end KeyTree
