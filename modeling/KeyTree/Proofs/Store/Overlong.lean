import KeyTree.Proofs.Store.Below

/-!
# Files whose names leave no room for a draft

A draft lies beside its file, and its name is the longer one. So there are files that can be found and
read, but not saved again.
-/

namespace KeyTree

namespace Location

variable {s : List Char}

theorem IsName.of_length (hlength : 2 < s.length) (hslash : '/' ∉ s) : IsName s where
  ne_nil := List.ne_nil_of_length_pos (Nat.zero_lt_of_lt hlength)
  ne_dot := by
    rintro rfl
    exact absurd hlength (by decide)
  ne_dots := by
    rintro rfl
    exact absurd hlength (by decide)
  not_mem := hslash

/-- One name is a location in the working directory. -/
theorem IsName.ofList_eq (h : IsName s) : String.ofList s = spelled [] [s] := by
  have hjoined : ([] : List Char) ++ Text.joined ['/'] [s] = s := rfl
  rw [spelled, hjoined, if_neg fun hempty ↦ h.ne_nil (List.isEmpty_iff.1 hempty)]

theorem IsName.segments_eq (h : IsName s) : segments (String.ofList s).toList = [s] := by
  rw [h.ofList_eq]
  exact segments_spelled (List.forall_mem_singleton.2 h)

theorem IsName.root_eq (h : IsName s) : root (String.ofList s).toList = [] := by
  rw [h.ofList_eq]
  exact root_spelled (List.forall_mem_singleton.2 h)

theorem IsName.normal_eq (h : IsName s) : normal (String.ofList s) = String.ofList s := by
  rw [normal, h.root_eq, h.segments_eq]
  exact h.ofList_eq.symm

theorem IsName.name_eq (h : IsName s) : name (String.ofList s) = String.ofList s := by
  rw [name, h.segments_eq]
  rfl

end Location

namespace Files

variable {s : List Char}

/-- A name leads to a file of the working directory, unless it is too long for one. -/
theorem resolve_of_isName (hname : Location.IsName s) (hzero : '\x00' ∉ s)
    (hshort : (String.ofList s).utf8ByteSize ≤ locationLimit) (files : Files) :
    files.resolve (String.ofList s) =
      if nameLimit < (String.ofList s).utf8ByteSize then .error .nameTooLong
      else .ok (Place.working.child (String.ofList s)) := by
  have hcontains : ¬ (String.ofList s).toList.contains '\x00' = true := by
    rw [String.toList_ofList, List.contains_iff_mem]
    exact hzero
  have hempty : ¬ (String.ofList s).isEmpty = true := by
    intro h
    apply hname.ne_nil
    rw [← String.toList_ofList (l := s), String.isEmpty_iff.1 h]
    rfl
  have hstart : Location.start (String.ofList s) = .working := by
    unfold Location.start
    rw [String.toList_ofList]
    split
    case h_1 => exact absurd List.mem_cons_self hname.not_mem
    case h_2 => rfl
  have hsteps : Location.steps (String.ofList s) = [.down (String.ofList s)] := by
    rw [Location.steps, String.toList_ofList, Text.fieldList,
      Text.fields_of_not_mem hname.not_mem, List.map_singleton, hname.ofSegment]
  have hfollow : files.follow .working (.down (String.ofList s)) =
      if nameLimit < (String.ofList s).utf8ByteSize then .error .nameTooLong
      else .ok (Place.working.child (String.ofList s)) := by
    unfold follow
    rw [slot_of_nil files rfl]
  unfold resolve
  rw [if_neg hcontains, if_neg hempty, if_neg (Nat.not_lt_of_le hshort), hstart, hsteps,
    List.foldlM_cons, hfollow]
  split <;> rfl

/-! ## The first draft -/

/-- What the title of the first draft has behind the name. -/
def draftEnding : List Char := ".00000000.tmp".toList

theorem draftName_of_isName (hname : Location.IsName s) :
    draftName (String.ofList s) 0 = String.ofList ('.' :: s ++ draftEnding) := by
  have hnumber : '.' :: (draftNumber 0).toList ++ ".tmp".toList = draftEnding := by
    decide
  have htitle : (draftTitle (String.ofList s) 0).toList = '.' :: s ++ draftEnding := by
    rw [toList_draftTitle, hname.name_eq, String.toList_ofList, ← hnumber, List.append_assoc]
  change Location.beside (String.ofList s) (draftTitle (String.ofList s) 0) = _
  rw [Location.beside, hname.root_eq, hname.segments_eq, htitle]
  rfl

theorem utf8ByteSize_draftName (hname : Location.IsName s) :
    (draftName (String.ofList s) 0).utf8ByteSize = (String.ofList s).utf8ByteSize + 14 := by
  have hdot : (String.ofList ['.']).utf8ByteSize = 1 := by decide
  have hending : (String.ofList draftEnding).utf8ByteSize = 13 := by decide
  calc (draftName (String.ofList s) 0).utf8ByteSize
      = (String.ofList (['.'] ++ (s ++ draftEnding))).utf8ByteSize := by
        rw [draftName_of_isName hname, ← List.append_assoc, List.singleton_append]
    _ = (String.ofList ['.']).utf8ByteSize +
          ((String.ofList s).utf8ByteSize + (String.ofList draftEnding).utf8ByteSize) := by
        rw [String.ofList_append, String.ofList_append, String.utf8ByteSize_append,
          String.utf8ByteSize_append]
    _ = (String.ofList s).utf8ByteSize + 14 := by
        rw [hdot, hending]
        omega

/-- A name that leaves no room for that of a draft, which is too long for a file. -/
structure IsOverlong (name : List Char) : Prop where
  isName : Location.IsName name
  not_mem : '\x00' ∉ name
  lt_draft : nameLimit < (draftName (String.ofList name) 0).utf8ByteSize
  draft_le : (draftName (String.ofList name) 0).utf8ByteSize ≤ locationLimit

theorem IsOverlong.resolve_draft (h : IsOverlong s) (files : Files) :
    files.resolve (draftName (String.ofList s) 0) = .error .nameTooLong := by
  have hlt := h.lt_draft
  have hle := h.draft_le
  rw [draftName_of_isName h.isName] at hlt hle ⊢
  have hmem {c : Char} (hdot : c ≠ '.') (hs : c ∉ s) (hending : c ∉ draftEnding) :
      c ∉ '.' :: s ++ draftEnding := by
    rw [List.cons_append, List.mem_cons, List.mem_append, not_or, not_or]
    exact ⟨hdot, hs, hending⟩
  have hlength : 2 < ('.' :: s ++ draftEnding).length := by
    rw [List.length_append]
    exact Nat.lt_add_left _ (by decide)
  have htitle : Location.IsName ('.' :: s ++ draftEnding) :=
    .of_length hlength (hmem (by decide) h.isName.not_mem (by decide))
  rw [resolve_of_isName htitle (hmem (by decide) h.not_mem (by decide)) hle, if_pos hlt]

/-- Nothing is saved under such a name. -/
theorem IsOverlong.save_eq (h : IsOverlong s) (files : Files) (bytes : List UInt8)
    (writing : Except FileFault Unit) :
    files.save (String.ofList s) bytes writing = (.error .nameTooLong, files) := by
  have hparent : files.makeDirectories (Location.parent (String.ofList s)) = (.ok (), files) := by
    have hnone : ∀ name ∈ [s].dropLast, Location.IsName name := List.forall_mem_nil _
    rw [h.isName.ofList_eq, Location.parent_spelled (List.forall_mem_singleton.2 h.isName)]
    unfold makeDirectories
    dsimp only
    rw [Location.root_spelled hnone, Location.segments_spelled hnone]
    rfl
  unfold save
  rw [hparent]
  dsimp only
  rw [draft, h.resolve_draft]
  rfl

end Files

end KeyTree
