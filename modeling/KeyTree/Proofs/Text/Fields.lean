import KeyTree.Text.Fields

/-!
# Fields and what they are put together to

Fields without the separator are read back from the text that they are put together to, and a text is
what its fields are put together to.
-/

namespace KeyTree.Text

/-- A character outside the class of a text's characters is not in it. -/
theorem not_mem_of_forall {p : Char → Bool} {s : List Char} (h : ∀ c ∈ s, p c = true) {d : Char}
    (hd : p d = false) : d ∉ s := by
  intro hmem
  rw [h d hmem] at hd
  cases hd

variable {separator : Char}

/-! ## Fields of a text -/

theorem fields_of_not_mem {s : List Char} (h : separator ∉ s) :
    fields separator s = (s, []) := by
  induction s with
  | nil => rfl
  | cons c rest ih =>
    rw [List.mem_cons, not_or] at h
    rw [fields, ih h.2]
    exact if_neg fun heq ↦ h.1 heq.symm

theorem fields_append {s : List Char} (h : separator ∉ s)
    (rest : List Char) : fields separator (s ++ separator :: rest) = (s, fieldList separator rest) := by
  induction s with
  | nil => exact if_pos rfl
  | cons c s ih =>
    rw [List.mem_cons, not_or] at h
    rw [List.cons_append, fields, ih h.2]
    exact if_neg fun heq ↦ h.1 heq.symm

/-- Fields without the separator are read back from the text that they are put together to. -/
theorem fields_joined {first : List Char} {others : List (List Char)}
    (h : ∀ field ∈ first :: others, separator ∉ field) :
    fields separator (joined [separator] (first :: others)) = (first, others) := by
  induction others generalizing first with
  | nil => exact fields_of_not_mem (h first List.mem_cons_self)
  | cons next others ih =>
    rw [List.forall_mem_cons] at h
    rw [joined, List.append_assoc, List.singleton_append, fields_append h.1, fieldList, ih h.2]
    exact List.cons_ne_nil next others

/-! ## All fields -/

theorem fieldList_cons_self (s : List Char) :
    fieldList separator (separator :: s) = [] :: fieldList separator s := by
  simp [fieldList, fields]

theorem fieldList_cons_of_ne {c : Char} (h : c ≠ separator) (s : List Char) :
    fieldList separator (c :: s) = (c :: (fields separator s).1) :: (fields separator s).2 := by
  simp [fieldList, fields, h]

theorem fieldList_append_of_not_mem {s : List Char} (h : separator ∉ s) (rest : List Char) :
    fieldList separator (s ++ rest) =
      (s ++ (fields separator rest).1) :: (fields separator rest).2 := by
  induction s with
  | nil => rfl
  | cons c s ih =>
    rw [List.mem_cons, not_or] at h
    obtain ⟨hfirst, hothers⟩ := List.cons.inj (ih h.2)
    rw [List.cons_append, fieldList_cons_of_ne fun heq ↦ h.1 heq.symm, hfirst, hothers]
    rfl

theorem fieldList_append (s rest : List Char) :
    fieldList separator (s ++ separator :: rest) =
      fieldList separator s ++ fieldList separator rest := by
  induction s with
  | nil => exact fieldList_cons_self rest
  | cons c s ih =>
    rw [List.cons_append]
    by_cases hc : c = separator
    · rw [hc, fieldList_cons_self, fieldList_cons_self, ih, List.cons_append]
    · obtain ⟨hfirst, hothers⟩ := List.cons.inj ih
      rw [fieldList_cons_of_ne hc, fieldList_cons_of_ne hc, hfirst, hothers]
      rfl

theorem not_mem_of_mem_fieldList {s field : List Char} (h : field ∈ fieldList separator s) :
    separator ∉ field := by
  induction s generalizing field with
  | nil =>
    obtain rfl := List.mem_singleton.1 h
    exact List.not_mem_nil
  | cons c s ih =>
    by_cases hc : c = separator
    · rw [hc, fieldList_cons_self, List.mem_cons] at h
      rcases h with rfl | h
      · exact List.not_mem_nil
      · exact ih h
    · rw [fieldList_cons_of_ne hc, List.mem_cons] at h
      rcases h with rfl | h
      · rw [List.mem_cons, not_or]
        exact ⟨fun heq ↦ hc heq.symm, ih List.mem_cons_self⟩
      · exact ih (List.mem_cons_of_mem _ h)

/-- The last of some fields put together stands alone or behind a separator. -/
theorem joined_append_singleton (separator : Char) (outer : List (List Char)) (last : List Char) :
    joined [separator] (outer ++ [last]) = last ∨
      ∃ init, joined [separator] (outer ++ [last]) = init ++ separator :: last := by
  induction outer with
  | nil => exact .inl rfl
  | cons field outer ih =>
    have hjoined : joined [separator] (field :: outer ++ [last]) =
        field ++ separator :: joined [separator] (outer ++ [last]) := by
      rw [List.cons_append, joined, List.append_assoc, List.singleton_append]
      exact List.append_ne_nil_of_right_ne_nil outer (List.cons_ne_nil last [])
    rw [hjoined]
    rcases ih with h | ⟨init, h⟩
    · exact .inr ⟨field, by rw [h]⟩
    · exact .inr ⟨field ++ separator :: init, by rw [h, List.append_assoc, List.cons_append]⟩

/-- A text is what its fields are put together to. -/
theorem joined_fieldList (s : List Char) : joined [separator] (fieldList separator s) = s := by
  induction s with
  | nil => rfl
  | cons c s ih =>
    by_cases hc : c = separator
    · rw [hc, fieldList_cons_self, joined, ih]
      · rfl
      · exact List.cons_ne_nil _ _
    · rw [fieldList_cons_of_ne hc]
      rw [fieldList] at ih
      cases hothers : (fields separator s).2 with
      | nil =>
        rw [hothers] at ih
        exact congrArg (c :: ·) ih
      | cons next others =>
        rw [hothers] at ih
        exact congrArg (c :: ·) ih

/-- A character of a text stands in a field, unless it is a separator. -/
theorem eq_or_mem_of_mem {s : List Char} {c : Char} (h : c ∈ s) :
    c = separator ∨ ∃ field ∈ fieldList separator s, c ∈ field := by
  induction s with
  | nil => cases h
  | cons d s ih =>
    by_cases hd : d = separator
    · rw [hd, fieldList_cons_self]
      rcases List.mem_cons.1 h with rfl | h
      · exact .inl hd
      · exact (ih h).imp_right fun ⟨field, hfield, hc⟩ ↦
          ⟨field, List.mem_cons_of_mem _ hfield, hc⟩
    · rw [fieldList_cons_of_ne hd]
      rcases List.mem_cons.1 h with rfl | h
      · exact .inr ⟨_, List.mem_cons_self, List.mem_cons_self⟩
      · refine (ih h).imp_right fun ⟨field, hfield, hc⟩ ↦ ?_
        rcases List.mem_cons.1 hfield with rfl | hfield
        · exact ⟨_, List.mem_cons_self, List.mem_cons_of_mem d hc⟩
        · exact ⟨field, List.mem_cons_of_mem _ hfield, hc⟩

/-! ## Cuts -/

theorem cut?_append {s : List Char} (h : separator ∉ s)
    (rest : List Char) : cut? separator (s ++ separator :: rest) = some (s, rest) := by
  induction s with
  | nil => exact if_pos rfl
  | cons c s ih =>
    rw [List.mem_cons, not_or] at h
    rw [List.cons_append, cut?, if_neg fun heq ↦ h.1 heq.symm, ih h.2]
    rfl

theorem cut?_eq_none_iff {s : List Char} : cut? separator s = none ↔ separator ∉ s := by
  induction s with
  | nil => exact iff_of_true rfl List.not_mem_nil
  | cons c s ih =>
    rw [cut?, List.mem_cons, not_or]
    split
    case isTrue hc => exact iff_of_false (Option.some_ne_none _) fun h ↦ h.1 hc.symm
    case isFalse hc =>
      rw [Option.map_eq_none_iff, ih]
      exact ⟨fun h ↦ ⟨fun heq ↦ hc heq.symm, h⟩, fun h ↦ h.2⟩

/-- A text is cut at its first separator, and nothing is lost. -/
theorem eq_append_of_cut? {s before after : List Char} (h : cut? separator s = some (before, after)) :
    s = before ++ separator :: after ∧ separator ∉ before := by
  induction s generalizing before with
  | nil => cases h
  | cons c s ih =>
    rw [cut?] at h
    split at h
    case isTrue hc =>
      obtain ⟨rfl, rfl⟩ := Prod.mk.inj (Option.some.inj h)
      rw [hc, List.nil_append]
      exact ⟨rfl, List.not_mem_nil⟩
    case isFalse hc =>
      obtain ⟨⟨first, rest⟩, hcut, heq⟩ := Option.map_eq_some_iff.1 h
      obtain ⟨rfl, rfl⟩ := Prod.mk.inj heq
      obtain ⟨hs, hfirst⟩ := ih hcut
      rw [hs, List.cons_append, List.mem_cons, not_or]
      exact ⟨rfl, fun heq ↦ hc heq.symm, hfirst⟩

/-! ## Lengths -/

theorem length_joined_cons (separator field : List Char) (rest : List (List Char)) :
    (joined separator (field :: rest)).length =
      field.length + if rest = [] then 0 else separator.length + (joined separator rest).length := by
  cases rest with
  | nil => rfl
  | cons next rest =>
    rw [joined, List.length_append, List.length_append, if_neg (List.cons_ne_nil next rest)]
    · exact Nat.add_assoc _ _ _
    · exact List.cons_ne_nil next rest

/-- Fields that are left out make a text shorter. -/
theorem length_joined_le (separator : List Char) {fields more : List (List Char)}
    (h : fields.Sublist more) : (joined separator fields).length ≤ (joined separator more).length := by
  induction h with
  | slnil => exact Nat.le_refl _
  | cons field _ ih =>
    rw [length_joined_cons]
    split
    case isTrue hnil =>
      rw [hnil] at ih
      exact Nat.le_trans ih (Nat.zero_le _)
    case isFalse => omega
  | @cons_cons fields more field hsub ih =>
    rw [length_joined_cons, length_joined_cons]
    by_cases hnil : fields = []
    · rw [if_pos hnil]
      exact Nat.add_le_add_left (Nat.zero_le _) _
    · have hmore : more ≠ [] := by
        rintro rfl
        exact hnil (List.sublist_nil.1 hsub)
      rw [if_neg hnil, if_neg hmore]
      omega

end KeyTree.Text
