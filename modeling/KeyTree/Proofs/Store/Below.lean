import KeyTree.Proofs.Store.Saving

/-!
# Locations below the working directory

A location of names, one in the other, leads down from the working directory. The directories that
are made for what is to lie there are the ones that it lies in, and not its own place.
-/

namespace KeyTree

namespace Location

/-! ## Names -/

/-- The name of something in a directory. -/
structure IsName (segment : List Char) : Prop where
  ne_nil : segment ≠ []
  ne_dot : segment ≠ ['.']
  ne_dots : segment ≠ ['.', '.']
  not_mem : '/' ∉ segment

theorem IsName.ofSegment {segment : List Char} (h : IsName segment) :
    Step.ofSegment segment = .down (String.ofList segment) := by
  unfold Step.ofSegment
  split
  · exact absurd rfl h.ne_nil
  · exact absurd rfl h.ne_dot
  · exact absurd rfl h.ne_dots
  · rfl

/-- A location of one or more names. -/
def IsBelow (location : String) : Prop :=
  ∃ names : List (List Char), names ≠ [] ∧ (∀ name ∈ names, IsName name) ∧
    location = spelled [] names

/-! ## How locations of names are read -/

variable {names : List (List Char)}

theorem toList_spelled (hne : names ≠ []) (h : ∀ name ∈ names, IsName name) :
    (spelled [] names).toList = Text.joined ['/'] names := by
  obtain ⟨first, others, rfl⟩ := List.exists_cons_of_ne_nil hne
  have hfirst := (h first List.mem_cons_self).ne_nil
  have hjoined : Text.joined ['/'] (first :: others) ≠ [] := by
    rw [← List.length_pos_iff, Text.length_joined_cons]
    exact Nat.lt_add_right _ (List.length_pos_iff.2 hfirst)
  simp [spelled, hjoined]

theorem fieldList_spelled (hne : names ≠ []) (h : ∀ name ∈ names, IsName name) :
    Text.fieldList '/' (spelled [] names).toList = names := by
  rw [toList_spelled hne h]
  obtain ⟨first, others, rfl⟩ := List.exists_cons_of_ne_nil hne
  rw [Text.fieldList, Text.fields_joined fun name hname ↦ (h name hname).not_mem]

theorem segments_spelled (h : ∀ name ∈ names, IsName name) :
    segments (spelled [] names).toList = names := by
  by_cases hne : names = []
  · subst hne
    rfl
  · rw [segments, fieldList_spelled hne h, List.filter_eq_self]
    intro name hname
    simp [(h name hname).ne_nil, (h name hname).ne_dot]

/-- A location of names does not start with a slash. -/
theorem head_spelled (h : ∀ name ∈ names, IsName name) (rest : List Char) :
    (spelled [] names).toList ≠ '/' :: rest := by
  intro hslash
  by_cases hne : names = []
  · subst hne
    cases hslash
  · have hfields := fieldList_spelled hne h
    rw [hslash, Text.fieldList_cons_self] at hfields
    exact (h [] (hfields ▸ List.mem_cons_self)).ne_nil rfl

theorem root_spelled (h : ∀ name ∈ names, IsName name) : root (spelled [] names).toList = [] := by
  unfold root
  split
  · exact absurd ‹_› (head_spelled h _)
  · exact absurd ‹_› (head_spelled h _)
  · exact absurd ‹_› (head_spelled h _)
  · rfl

theorem parent_spelled (h : ∀ name ∈ names, IsName name) :
    parent (spelled [] names) = spelled [] names.dropLast := by
  simp only [parent, root_spelled h, segments_spelled h]

theorem foldl_take_down (base : Base) (outer : List String) (names : List (List Char)) :
    (names.map fun name ↦ Step.down (String.ofList name)).foldl Place.take ⟨base, outer⟩ =
      ⟨base, (names.map String.ofList).reverse ++ outer⟩ := by
  induction names generalizing outer with
  | nil => rfl
  | cons name names ih =>
    rw [List.map_cons, List.foldl_cons, List.map_cons, List.reverse_cons, List.append_assoc]
    exact ih (String.ofList name :: outer)

theorem place_spelled (hne : names ≠ []) (h : ∀ name ∈ names, IsName name) :
    place (spelled [] names) = ⟨.above 0, (names.map String.ofList).reverse⟩ := by
  have hstart : start (spelled [] names) = .working := by
    unfold start
    split
    · exact absurd ‹_› (head_spelled h _)
    · rfl
  have hsteps : steps (spelled [] names) =
      names.map fun name ↦ Step.down (String.ofList name) := by
    rw [steps, fieldList_spelled hne h]
    exact List.map_congr_left fun name hname ↦ (h name hname).ofSegment
  rw [place, hsteps, hstart, Place.working, foldl_take_down, List.append_nil]

theorem IsBelow.isBelow_place {location : String} (h : IsBelow location) :
    (place location).isBelow = true := by
  obtain ⟨names, hne, hnames, rfl⟩ := h
  rw [place_spelled hne hnames]
  simp [Place.isBelow, hne]

end Location

/-! ## Directories for what lies there -/

namespace Files

/-- The directories for what is to lie at a location do not take its place. -/
theorem slot_of_makeDirectories_parent {location : String} (h : Location.IsBelow location)
    (files : Files) :
    (files.makeDirectories (Location.parent location)).2.slot (Location.place location) =
      files.slot (Location.place location) := by
  obtain ⟨names, hne, hnames, rfl⟩ := h
  have hinit : ∀ name ∈ names.dropLast, Location.IsName name :=
    fun name hname ↦ hnames name (List.dropLast_subset names hname)
  rw [Location.parent_spelled hnames]
  unfold makeDirectories
  dsimp only
  rw [Location.root_spelled hinit, Location.segments_spelled hinit]
  apply rel_makeAll (R := fun files files' ↦ files'.slot _ = files.slot _) (fun _ ↦ rfl)
    (fun h h' ↦ h'.trans h)
  intro outer segment hsuffix files files' hmade
  rcases exists_of_makeDirectory hmade with rfl | ⟨-, rfl⟩
  · rfl
  · apply slot_put_of_ne
    intro hplace
    -- The place of the location has more names than those of the directories.
    have houter : ∀ name ∈ outer.reverse ++ [segment], Location.IsName name := by
      intro name hname
      apply hinit name
      rw [← List.mem_reverse]
      apply hsuffix.subset
      simpa [or_comm] using hname
    rw [Location.place_spelled hne hnames, Location.place_spelled (by simp) houter] at hplace
    have hlength := congrArg (·.names.length) hplace
    have hle := hsuffix.length_le
    have hpos := List.length_pos_iff.2 hne
    simp only [List.length_reverse, List.length_map, List.length_append,
      List.length_singleton] at hlength
    rw [List.length_cons, List.length_reverse, List.length_dropLast] at hle
    omega

end Files

end KeyTree
