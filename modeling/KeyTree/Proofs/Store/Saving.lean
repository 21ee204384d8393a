import KeyTree.Proofs.Number.Digits
import KeyTree.Proofs.Ordered
import KeyTree.Proofs.Results
import KeyTree.Proofs.Text.Fields
import KeyTree.Store.Files
import Mathlib.Data.List.Perm.Subperm

/-!
# Files that have been saved

A file is written under a name of its own beside its place and moved there. Neither writes over a
directory that lies on the way, so the file is found at its location afterwards with what was saved.
-/

namespace KeyTree

/-! ## Places and last steps of locations -/

namespace Location

/-- The place that a location leads to, if the way to it is there. -/
def place (location : String) : Place := (steps location).foldl Place.take (start location)

/-- The root of a location is empty, or it ends in a slash. -/
theorem root_eq (s : List Char) : root s = [] ∨ ∃ init, root s = init ++ ['/'] := by
  unfold root
  split
  · exact .inr ⟨[], rfl⟩
  · exact .inr ⟨['/'], rfl⟩
  · exact .inr ⟨[], rfl⟩
  · exact .inl rfl

/-- A location beside another one ends in the step to its name. -/
theorem exists_steps_beside (location : String) {name : String} (hname : '/' ∉ name.toList)
    (hne : name.toList ≠ []) :
    ∃ init, steps (beside location name) = init ++ [Step.ofSegment name.toList] := by
  let outer := (segments location.toList).dropLast
  let text := root location.toList ++ Text.joined ['/'] (outer ++ [name.toList])
  have htext : text = name.toList ∨ ∃ init, text = init ++ '/' :: name.toList := by
    rcases Text.joined_append_singleton '/' outer name.toList with hjoined | ⟨init, hjoined⟩
    · rcases root_eq location.toList with hroot | ⟨init, hroot⟩
      · exact .inl (by simp only [text, hjoined, hroot, List.nil_append])
      · exact .inr ⟨init, by simp only [text, hjoined, hroot, List.append_assoc,
          List.singleton_append]⟩
    · exact .inr ⟨root location.toList ++ init, by simp only [text, hjoined, List.append_assoc]⟩
  have hfields : ∃ init, Text.fieldList '/' text = init ++ [name.toList] := by
    have hlast : Text.fieldList '/' name.toList = [name.toList] := by
      rw [Text.fieldList, Text.fields_of_not_mem hname]
    rcases htext with h | ⟨init, h⟩
    · exact ⟨[], by rw [h, hlast, List.nil_append]⟩
    · exact ⟨Text.fieldList '/' init, by rw [h, Text.fieldList_append, hlast]⟩
  have hnonempty : text.isEmpty = false := by
    rw [List.isEmpty_eq_false_iff]
    rcases htext with h | ⟨init, h⟩
    · rwa [h]
    · rw [h]
      exact List.append_ne_nil_of_right_ne_nil init (List.cons_ne_nil '/' name.toList)
  have hbeside : (beside location name).toList = text := by
    have hspelled : beside location name = if text.isEmpty then "." else String.ofList text := rfl
    rw [hspelled, hnonempty]
    exact String.toList_ofList
  obtain ⟨init, hinit⟩ := hfields
  refine ⟨init.map Step.ofSegment, ?_⟩
  rw [steps, hbeside, hinit, List.map_append, List.map_singleton]

/-- The last segment of a location has no slash in it. -/
theorem not_mem_name (location : String) : '/' ∉ (name location).toList := by
  rw [name, String.toList_ofList, List.getLastD_eq_getLast?]
  cases hlast : (segments location.toList).getLast? with
  | none => exact List.not_mem_nil
  | some segment =>
    have hmem := List.mem_of_getLast? hlast
    exact Text.not_mem_of_mem_fieldList (List.mem_filter.1 hmem).1

end Location

theorem Step.ofSegment_of_length {segment : List Char} (h : 2 < segment.length) :
    ofSegment segment = .down (String.ofList segment) := by
  unfold ofSegment
  split
  · cases h
  · exact absurd h (by decide)
  · exact absurd h (by decide)
  · rfl

namespace Files

variable {files : Files} {place : Place}

/-! ## Places that are written -/

theorem slot_of_nil (files : Files) (h : place.names = []) : files.slot place = .directory := by
  rw [slot, h]
  rfl

theorem names_ne_nil_of_slot (h : files.slot place ≠ .directory) : place.names ≠ [] :=
  fun hnil ↦ h (slot_of_nil files hnil)

theorem names_ne_nil_of_missing (h : files.slot place = .missing) : place.names ≠ [] :=
  fun hnil ↦ Slot.noConfusion ((slot_of_nil files hnil).symm.trans h)

theorem slot_put_self (files : Files) (slot : Slot) (h : place.names ≠ []) :
    (files.put place slot).slot place = slot := by
  rw [Files.slot, List.isEmpty_eq_false_iff.2 h, put, Ordered.get?_put, beq_self_eq_true]
  rfl

theorem slot_put_of_ne (files : Files) (slot : Slot) {other : Place} (h : place ≠ other) :
    (files.put place slot).slot other = files.slot other := by
  rw [Files.slot, Files.slot, put, Ordered.get?_put, beq_eq_false_iff_ne.2 h]
  rfl

theorem slot_remove_self (files : Files) (h : place.names ≠ []) :
    (files.remove place).slot place = .missing := by
  have hnone : Ordered.get? place (files.remove place) = none := by
    simp [remove, Ordered.erase, Ordered.get?_filter (fun key ↦ !(key == place))]
  simp [slot, h, hnone]

theorem slot_remove_of_ne (files : Files) {other : Place} (h : place ≠ other) :
    (files.remove place).slot other = files.slot other := by
  rw [slot, slot, remove, Ordered.get?_erase_of_ne h]

/-! ## Ways -/

theorem follow_eq_ok {step : Step} {next : Place} (h : files.follow place step = .ok next) :
    files.slot place = .directory := by
  unfold follow at h
  cases hslot : files.slot place with
  | directory => rfl
  | missing =>
    rw [hslot] at h
    cases step <;> cases h
  | file content =>
    rw [hslot] at h
    cases step <;> cases h

theorem follow_of_directory {files' : Files} {step : Step} (hslot : files.slot place = .directory)
    (hslot' : files'.slot place = .directory) :
    files'.follow place step = files.follow place step := by
  unfold follow
  rw [hslot, hslot']

theorem foldlM_follow_of_directories {files' : Files} {steps : List Step} {start : Place}
    (hdirectories : ∀ other : Place, files.slot other = .directory → files'.slot other = .directory)
    (h : steps.foldlM files.follow start = .ok place) :
    steps.foldlM files'.follow start = .ok place := by
  induction steps generalizing start with
  | nil => exact h
  | cons step steps ih =>
    rw [List.foldlM_cons] at h ⊢
    obtain ⟨next, hnext, hrest⟩ := exists_of_bind_eq_ok h
    have hslot := follow_eq_ok hnext
    rw [follow_of_directory hslot (hdirectories start hslot), hnext]
    exact ih hrest

/-- What is asked of a location itself does not depend on the files. -/
theorem resolve_eq_foldlM {location : String} (h : files.resolve location = .ok place)
    (files' : Files) : files'.resolve location =
      (Location.steps location).foldlM files'.follow (Location.start location) := by
  unfold resolve at h ⊢
  split at h
  case isTrue => cases h
  case isFalse hzero =>
    split at h
    case isTrue => cases h
    case isFalse hempty =>
      split at h
      case isTrue => cases h
      case isFalse hlong => rw [if_neg hzero, if_neg hempty, if_neg hlong]

/-- A way that leads somewhere does so still if no directory is gone. -/
theorem resolve_of_directories {files' : Files} {location : String}
    (hdirectories : ∀ other : Place, files.slot other = .directory → files'.slot other = .directory)
    (h : files.resolve location = .ok place) : files'.resolve location = .ok place := by
  rw [resolve_eq_foldlM h files']
  rw [resolve_eq_foldlM h files] at h
  exact foldlM_follow_of_directories hdirectories h

theorem follow_eq_take {step : Step} {next : Place} (h : files.follow place step = .ok next) :
    next = place.take step := by
  have hslot := follow_eq_ok h
  unfold follow at h
  rw [hslot] at h
  cases step with
  | down name =>
    dsimp only at h
    split at h
    · cases h
    · exact (Except.ok.inj h).symm
  | stay | up => exact (Except.ok.inj h).symm

/-- A location that leads somewhere always leads to the same place. -/
theorem resolve_eq_place {location : String} (h : files.resolve location = .ok place) :
    place = Location.place location := by
  rw [resolve_eq_foldlM h files] at h
  unfold Location.place
  generalize Location.steps location = steps at h
  generalize Location.start location = start at h
  induction steps generalizing start with
  | nil => exact (Except.ok.inj h).symm
  | cons step steps ih =>
    rw [List.foldlM_cons] at h
    obtain ⟨next, hnext, hrest⟩ := exists_of_bind_eq_ok h
    rw [List.foldl_cons, ← follow_eq_take hnext]
    exact ih next hrest

/-! ## Drafts -/

theorem toList_draftNumber (number : Nat) :
    (draftNumber number).toList = Layout.padded 8 (Nat.toDigits 10 number) := by
  simp [draftNumber, Layout.padded, Nat.toList_repr]

theorem draftNumber_injective {m n : Nat} (h : draftNumber m = draftNumber n) : m = n := by
  rw [← Text.digitsValue_padded 8 m, ← toList_draftNumber, h, toList_draftNumber,
    Text.digitsValue_padded]

/-- The name of a draft, without the way to it. -/
def draftTitle (location : String) (number : Nat) : String :=
  s!".{Location.name location}.{draftNumber number}.tmp"

theorem toList_draftTitle (location : String) (number : Nat) :
    (draftTitle location number).toList =
      '.' :: (Location.name location).toList ++ '.' :: (draftNumber number).toList ++
        ".tmp".toList := by
  simp [draftTitle, toString]

theorem draftTitle_injective {location : String} {m n : Nat}
    (h : draftTitle location m = draftTitle location n) : m = n := by
  have hlist := congrArg String.toList h
  rw [toList_draftTitle, toList_draftTitle] at hlist
  apply draftNumber_injective
  apply String.toList_inj.1
  simpa using hlist

theorem not_mem_draftTitle (location : String) (number : Nat) :
    '/' ∉ (draftTitle location number).toList := by
  have hnumber : '/' ∉ (draftNumber number).toList := by
    rw [toList_draftNumber, Layout.padded, List.mem_append]
    rintro (h | h)
    · exact absurd (Text.isPlainDigit_of_mem_zeros h) (by decide)
    · exact absurd (Text.isPlainDigit_of_mem_toDigits h) (by decide)
  simp [toList_draftTitle, Location.not_mem_name, hnumber]

/-- A draft lies under its title. -/
theorem names_of_draftName {location : String} {number : Nat}
    (h : files.resolve (draftName location number) = .ok place) :
    ∃ outer, place.names = draftTitle location number :: outer := by
  have hlength : 2 < (draftTitle location number).toList.length := by
    rw [toList_draftTitle, List.length_append]
    exact Nat.lt_add_left _ (by decide)
  obtain ⟨init, hsteps⟩ := Location.exists_steps_beside location
    (not_mem_draftTitle location number)
    (List.ne_nil_of_length_pos (Nat.lt_trans Nat.two_pos hlength))
  rw [Step.ofSegment_of_length hlength, String.ofList_toList] at hsteps
  have hplace : place = Location.place (Location.beside location (draftTitle location number)) :=
    resolve_eq_place h
  rw [hplace, Location.place, hsteps, List.foldl_append]
  exact ⟨_, rfl⟩

/-- Something other than a base has a name and is listed. -/
theorem mem_keys_of_slot (hnames : place.names ≠ []) (h : files.slot place ≠ .missing) :
    place ∈ Ordered.keys files := by
  by_contra hmem
  apply h
  have hnone : Ordered.get? place files = none := by
    rw [Ordered.get?, Option.map_eq_none_iff, List.find?_eq_none]
    intro entry hentry hkey
    exact hmem (eq_of_beq hkey ▸ List.mem_map_of_mem hentry)
  simp [slot, hnames, hnone]

/-- Drafts of different numbers lie at different places. -/
theorem nodup_drafts {location : String} {numbers : List Nat} {places : List Place}
    (hnumbers : numbers.Nodup)
    (h : List.Forall₂ (fun number place ↦ files.resolve (draftName location number) = .ok place)
      numbers places) : places.Nodup := by
  have hheads : places.map (·.names.head?) = numbers.map (some ∘ draftTitle location) := by
    induction h with
    | nil => rfl
    | cons hplace _ ih =>
      obtain ⟨outer, houter⟩ := names_of_draftName hplace
      rw [List.map_cons, List.map_cons, ih (List.nodup_cons.1 hnumbers).2, houter]
      rfl
  apply List.Nodup.of_map (·.names.head?)
  rw [hheads]
  exact hnumbers.map fun m n hmn ↦ draftTitle_injective (Option.some.inj hmn)

/-- There are more drafts to choose from than files. -/
theorem slot_draft {location : String} (h : files.draft location = .ok place) :
    files.slot place = .missing := by
  obtain ⟨first, hfirst, h⟩ := exists_of_bind_eq_ok h
  obtain ⟨others, hothers, h⟩ := exists_of_bind_eq_ok h
  have hplace := Except.ok.inj h
  cases hfind : (first :: others).find? fun place ↦ files.slot place == .missing with
  | some found =>
    rw [hfind] at hplace
    obtain rfl : found = place := hplace
    simpa using List.find?_some hfind
  | none =>
    exfalso
    have hplaces : List.Forall₂
        (fun number place ↦ files.resolve (draftName location number) = .ok place)
        (List.range (files.length + 1)) (first :: others) := by
      rw [List.range_succ_eq_map]
      refine .cons hfirst ?_
      rw [List.forall₂_map_left_iff]
      exact forall₂_of_mapM hothers
    have hsubset : first :: others ⊆ Ordered.keys files := by
      intro draft hdraft
      have hslot : files.slot draft ≠ .missing := by
        simpa using List.find?_eq_none.1 hfind draft hdraft
      obtain ⟨number, hnumber⟩ :
          ∃ number, files.resolve (draftName location number) = .ok draft := by
        rcases List.mem_cons.1 hdraft with rfl | hdraft
        · exact ⟨0, hfirst⟩
        · obtain ⟨number, -, hnumber⟩ := exists_of_mem_mapM hothers hdraft
          exact ⟨number + 1, hnumber⟩
      obtain ⟨outer, houter⟩ := names_of_draftName hnumber
      exact mem_keys_of_slot (houter ▸ List.cons_ne_nil _ _) hslot
    have hlength :=
      (List.subperm_of_subset (nodup_drafts List.nodup_range hplaces) hsubset).length_le
    rw [← hplaces.length_eq, List.length_range, Ordered.keys, List.length_map] at hlength
    exact absurd hlength (Nat.not_succ_le_self files.length)

/-! ## Directories that are made -/

/-- Nothing changes, but there may be new directories. -/
def Grows (files files' : Files) : Prop :=
  ∀ place, files'.slot place = files.slot place ∨
    files.slot place = .missing ∧ files'.slot place = .directory

theorem Grows.refl (files : Files) : files.Grows files := fun _ ↦ .inl rfl

theorem Grows.trans {files₁ files₂ files₃ : Files} (h : files₁.Grows files₂)
    (h' : files₂.Grows files₃) : files₁.Grows files₃ := by
  intro place
  rcases h place with h | ⟨hmissing, h⟩
  · rw [← h]
    exact h' place
  · rcases h' place with h' | ⟨hmissing', -⟩
    · exact .inr ⟨hmissing, h'.trans h⟩
    · rw [h] at hmissing'
      cases hmissing'

/-- What is there stays as it is. -/
theorem Grows.slot_eq {files' : Files} (h : files.Grows files')
    (hslot : files.slot place ≠ .missing) : files'.slot place = files.slot place :=
  (h place).resolve_right fun hmade ↦ hslot hmade.1

theorem Grows.resolve {files' : Files} (h : files.Grows files') {location : String}
    (hplace : files.resolve location = .ok place) : files'.resolve location = .ok place := by
  apply resolve_of_directories _ hplace
  intro other hother
  rw [h.slot_eq (by simp [hother]), hother]

theorem grows_put (h : files.slot place = .missing) : files.Grows (files.put place .directory) := by
  have hnames := names_ne_nil_of_missing h
  intro other
  by_cases hother : place = other
  · subst hother
    exact .inr ⟨h, slot_put_self files .directory hnames⟩
  · exact .inl (slot_put_of_ne files .directory hother)

theorem exists_of_makeDirectory {files' : Files} {location : String}
    (h : files.makeDirectory location = .ok files') :
    files' = files ∨ files.slot (Location.place location) = .missing ∧
      files' = files.put (Location.place location) .directory := by
  obtain ⟨place, hplace, h⟩ := exists_of_bind_eq_ok h
  obtain rfl := resolve_eq_place hplace
  cases hslot : files.slot (Location.place location) with
  | missing =>
    rw [hslot] at h
    exact .inr ⟨rfl, (Except.ok.inj h).symm⟩
  | directory =>
    rw [hslot] at h
    exact .inl (Except.ok.inj h).symm
  | file content =>
    rw [hslot] at h
    cases h

/-- What holds of each directory that is made holds of all that are made for a location. -/
theorem rel_makeAll {R : Files → Files → Prop} (hrefl : ∀ files, R files files)
    (htrans : ∀ {files₁ files₂ files₃}, R files₁ files₂ → R files₂ files₃ → R files₁ files₃)
    {root : List Char} {segments : List (List Char)}
    (h : ∀ outer segment, segment :: outer <:+ segments → ∀ files files' : Files,
      files.makeDirectory (Location.spelled root (outer.reverse ++ [segment])) = .ok files' →
        R files files')
    (files : Files) : R files (makeAll root segments files).2 := by
  induction segments generalizing files with
  | nil => exact hrefl files
  | cons segment outer ih =>
    have hself := h outer segment (List.suffix_refl _)
    have houter := ih (fun outer' segment' hsuffix ↦
      h outer' segment' (hsuffix.trans (List.suffix_cons segment outer))) files
    unfold makeAll
    dsimp only
    split
    case h_1 made hmade => exact hself files made hmade
    case h_2 =>
      split
      case h_1 fault made hmade =>
        rw [hmade] at houter
        exact houter
      case h_2 made hmade =>
        rw [hmade] at houter
        split
        case h_1 made' hmade' => exact htrans houter (hself made made' hmade')
        case h_2 => exact houter
    case h_3 => exact hrefl files

theorem grows_makeDirectories (files : Files) (location : String) :
    files.Grows (files.makeDirectories location).2 := by
  apply rel_makeAll Grows.refl Grows.trans
  intro outer segment _ files files' h
  rcases exists_of_makeDirectory h with rfl | ⟨hmissing, rfl⟩
  · exact .refl files'
  · exact grows_put hmissing

/-! ## Saving -/

/-- A file is moved to where no directory is. -/
theorem exists_of_move {moved : Files} {source : Place} {target : String}
    (h : files.move source target = .ok moved) :
    ∃ place, files.resolve target = .ok place ∧ files.slot place ≠ .directory ∧
      moved = (files.remove source).put place (files.slot source) := by
  obtain ⟨place, hplace, h⟩ := exists_of_bind_eq_ok h
  refine ⟨place, hplace, ?_⟩
  by_cases hup : (Location.steps target).getLast? = some .up
  · rw [if_pos hup] at h
    cases h
  · rw [if_neg hup] at h
    cases hslot : files.slot place with
    | directory =>
      rw [hslot] at h
      cases h
    | missing | file =>
      rw [hslot] at h
      exact ⟨Slot.noConfusion, (Except.ok.inj h).symm⟩

/-- What is a directory beside a draft was one without it. -/
theorem slot_of_slot_put {content : List UInt8} {other : Place}
    (h : (files.put place (.file content)).slot other = .directory) :
    files.slot other = .directory := by
  by_cases hother : place = other
  · subst hother
    by_cases hnames : place.names = []
    · exact slot_of_nil files hnames
    · rw [slot_put_self _ _ hnames] at h
      cases h
  · rwa [slot_put_of_ne _ _ hother] at h

/-- A draft that is removed leaves nothing behind. -/
theorem slot_remove_put (hplace : files.slot place = .missing) (slot : Slot) (other : Place) :
    ((files.put place slot).remove place).slot other = files.slot other := by
  by_cases hother : place = other
  · subst hother
    rw [slot_remove_self _ (names_ne_nil_of_missing hplace), hplace]
  · rw [slot_remove_of_ne _ hother, slot_put_of_ne _ _ hother]

/--
How a file is saved. Directories are made for it. Then the file is at its place and nothing else has
changed, or, if there is a fault, nothing has.
-/
theorem save_cases {ready : Files} (files : Files) (location : String) (bytes : List UInt8)
    (writing : Except FileFault Unit)
    (hready : (files.makeDirectories (Location.parent location)).2 = ready) :
    (∃ fault, (files.save location bytes writing).1 = .error fault ∧
      ∀ place, (files.save location bytes writing).2.slot place = ready.slot place) ∨
    ((files.save location bytes writing).1 = .ok () ∧
      ready.resolve location = .ok (Location.place location) ∧
      ready.slot (Location.place location) ≠ .directory ∧
      ∀ place, (files.save location bytes writing).2.slot place =
        if place = Location.place location then .file bytes else ready.slot place) := by
  unfold save
  rcases hmade : files.makeDirectories (Location.parent location) with ⟨fault | done, made⟩
  · obtain rfl : made = ready := by rw [← hready, hmade]
    exact .inl ⟨fault, rfl, fun _ ↦ rfl⟩
  · obtain rfl : made = ready := by rw [← hready, hmade]
    dsimp only
    cases hdraft : made.draft location with
    | error fault => exact .inl ⟨fault, rfl, fun _ ↦ rfl⟩
    | ok draft =>
      have hmissing := slot_draft hdraft
      dsimp only
      cases hmove : writing >>= fun () ↦ (made.put draft (.file bytes)).move draft location with
      | error fault => exact .inl ⟨fault, rfl, slot_remove_put hmissing _⟩
      | ok moved =>
        right
        obtain ⟨-, -, hmove⟩ := exists_of_bind_eq_ok hmove
        obtain ⟨place, hplace, hslot, rfl⟩ := exists_of_move hmove
        obtain rfl := resolve_eq_place hplace
        have hnames := names_ne_nil_of_slot hslot
        refine ⟨rfl, resolve_of_directories (fun _ ↦ slot_of_slot_put) hplace, ?_, ?_⟩
        · intro hdirectory
          have hne : draft ≠ Location.place location := by
            rintro rfl
            rw [hmissing] at hdirectory
            cases hdirectory
          exact hslot ((slot_put_of_ne made _ hne).trans hdirectory)
        · intro other
          rw [slot_put_self made _ (names_ne_nil_of_missing hmissing)]
          by_cases hother : other = Location.place location
          · rw [if_pos hother, hother]
            exact slot_put_self _ _ hnames
          · rw [if_neg hother, slot_put_of_ne _ _ (Ne.symm hother), slot_remove_put hmissing]

/-- What cannot be written is not saved. -/
theorem exists_save_error (files : Files) (location : String) (bytes : List UInt8)
    (fault : FileFault) : ∃ fault', (files.save location bytes (.error fault)).1 = .error fault' := by
  unfold save
  rcases files.makeDirectories (Location.parent location) with ⟨fault' | done, made⟩
  · exact ⟨fault', rfl⟩
  · dsimp only
    cases made.draft location with
    | error fault' => exact ⟨fault', rfl⟩
    | ok draft => exact ⟨fault, rfl⟩

/-- What has been saved is found at its location. -/
theorem find_of_save {files' : Files} {location : String} {bytes : List UInt8}
    {writing : Except FileFault Unit} (h : files.save location bytes writing = (.ok (), files')) :
    files'.find location = .ok (.file bytes) := by
  have hsave := save_cases files location bytes writing rfl
  rw [h] at hsave
  generalize (files.makeDirectories (Location.parent location)).2 = ready at hsave
  rcases hsave with ⟨fault, hfault, -⟩ | ⟨-, hplace, hslot, hslots⟩
  · cases hfault
  · have hdirectories (other : Place) (hother : ready.slot other = .directory) :
        files'.slot other = .directory := by
      have hne : other ≠ Location.place location := by
        rintro rfl
        exact hslot hother
      rw [hslots, if_neg hne, hother]
    rw [find, resolve_of_directories hdirectories hplace]
    exact congrArg Except.ok ((hslots _).trans (if_pos rfl))

end Files

end KeyTree
