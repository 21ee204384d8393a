import KeyTree.Proofs.Ordered
import KeyTree.Proofs.Text.Fields
import KeyTree.Proofs.Url.Percent
import KeyTree.Url.Basic
import KeyTree.Url.Query
import Mathlib.Data.List.Flatten

/-!
# Queries read back

The parameters of a query have different names, each with a value, and parameters like these are read
back from the query they are written to. Taking parameters out does not make the query longer.
-/

namespace KeyTree

namespace Url.Params

/-! ## Names and values -/

/-- A character that an encoded name or value may have. -/
def isPartChar (c : Char) : Bool := c == '%' || c == '+' || isUnreserved c

theorem isPartChar_of_mem_encodePart {s : String} {c : Char} (h : c ∈ encodePart s) :
    isPartChar c = true := by
  obtain ⟨d, hd, rfl⟩ := List.mem_map.1 h
  split
  case isTrue => decide
  case isFalse hspace =>
    rcases eq_percent_or_of_mem_percentEncode hd with rfl | hsafe
    · decide
    · have hunreserved : isUnreserved d = true := by
        rw [isEncoded, Bool.or_eq_true, beq_iff_eq] at hsafe
        exact hsafe.resolve_right hspace
      rw [isPartChar, hunreserved, Bool.or_true]

theorem decodePart_encodePart (s : String) : decodePart (encodePart s) = s := by
  have hplus : '+' ∉ percentEncode (· == ' ') s.toList := by
    intro hmem
    rcases eq_percent_or_of_mem_percentEncode hmem with h | h
    · exact absurd h (by decide)
    · exact absurd h (by decide)
  have hspaces : (encodePart s).map (fun c ↦ if c = '+' then ' ' else c) =
      percentEncode (· == ' ') s.toList := by
    rw [encodePart, List.map_map]
    refine (List.map_congr_left fun c hc ↦ ?_).trans (List.map_id _)
    by_cases hspace : c = ' '
    · subst hspace
      rfl
    · have hne : c ≠ '+' := fun heq ↦ hplus (heq ▸ hc)
      simp [hspace, hne]
  rw [decodePart, hspaces, percentDecode_percentEncode (by decide), String.ofList_toList]

/-- One field of a query. -/
def encodeField (entry : String × String) : List Char :=
  encodePart entry.1 ++ '=' :: encodePart entry.2

theorem eq_or_isPartChar_of_mem_encodeField {entry : String × String} {c : Char}
    (h : c ∈ encodeField entry) : c = '=' ∨ isPartChar c = true := by
  rcases List.mem_append.1 h with h | h
  · exact .inr (isPartChar_of_mem_encodePart h)
  · exact (List.mem_cons.1 h).imp_right isPartChar_of_mem_encodePart

theorem decodeField_encodeField (entry : String × String) :
    decodeField (encodeField entry) = entry := by
  have hequals : '=' ∉ encodePart entry.1 :=
    Text.not_mem_of_forall (fun _ ↦ isPartChar_of_mem_encodePart) (by decide)
  rw [decodeField, encodeField, Text.cut?_append hequals]
  dsimp only
  rw [decodePart_encodePart, decodePart_encodePart]

theorem toQuery_eq_joined (params : Params) :
    params.toQuery = Text.joined ['&'] ((Ordered.ungrouped params).map encodeField) := by
  rw [toQuery, Ordered.ungrouped, List.map_flatMap]
  simp only [List.map_map]
  rfl

/-! ## Parameters -/

/-- Every name stands once, and has a value. -/
structure IsLawful (params : Params) : Prop where
  distinct : (Ordered.keys params).Nodup
  valued : ∀ entry ∈ params, entry.2 ≠ []

theorem isLawful_ofQuery (query : List Char) : (ofQuery query).IsLawful :=
  ⟨Ordered.nodup_keys_group _, fun _ ↦ Ordered.ne_nil_of_mem_group⟩

variable {params : Params}

theorem IsLawful.filter (h : params.IsLawful) (p : String × List String → Bool) :
    IsLawful (params.filter p) :=
  ⟨h.distinct.sublist (List.filter_sublist.map _),
    fun entry hentry ↦ h.valued entry (List.mem_of_mem_filter hentry)⟩

theorem IsLawful.put (h : params.IsLawful) (name value : String) :
    IsLawful (Ordered.put name [value] params) := by
  refine ⟨Ordered.nodup_keys_put name [value] h.distinct, fun entry hentry ↦ ?_⟩
  rcases Ordered.mem_put hentry with rfl | hentry
  · exact List.cons_ne_nil value []
  · exact h.valued entry hentry

theorem IsLawful.merge (h : params.IsLawful) (new : List (String × String)) :
    (params.merge new).IsLawful := by
  induction new generalizing params with
  | nil => exact h
  | cons entry new ih => exact ih (h.put entry.1 entry.2)

/-- Lawful parameters are read back from the query they are written to. -/
theorem ofQuery_toQuery (h : params.IsLawful) : ofQuery params.toQuery = params := by
  have hamp (field : List Char) (hfield : field ∈ (Ordered.ungrouped params).map encodeField) :
      '&' ∉ field := by
    obtain ⟨entry, -, rfl⟩ := List.mem_map.1 hfield
    intro hmem
    rcases eq_or_isPartChar_of_mem_encodeField hmem with h | h
    · exact absurd h (by decide)
    · exact absurd h (by decide)
  have hfields : (Text.fieldList '&' params.toQuery).filter (!·.isEmpty) =
      (Ordered.ungrouped params).map encodeField := by
    rw [toQuery_eq_joined]
    cases hentries : Ordered.ungrouped params with
    | nil => rfl
    | cons entry entries =>
      rw [hentries, List.map_cons] at hamp
      rw [List.map_cons, Text.fieldList, Text.fields_joined hamp, List.filter_eq_self]
      intro field hfield
      have hmem : field ∈ (entry :: entries).map encodeField := hfield
      obtain ⟨other, -, rfl⟩ := List.mem_map.1 hmem
      simp [encodeField]
  rw [ofQuery, hfields, List.map_map]
  have hdecode : decodeField ∘ encodeField = id := funext decodeField_encodeField
  rw [hdecode, List.map_id, Ordered.group_ungrouped h.distinct h.valued]

/-- What is written as a query stands for itself in a query. -/
theorem percentEncode_toQuery (params : Params) :
    percentEncode isQuerySafe params.toQuery = params.toQuery := by
  apply percentEncode_eq_self
  intro c hc
  have hchar : c = '&' ∨ ∃ entry, c ∈ encodeField entry := by
    rw [toQuery_eq_joined] at hc
    generalize Ordered.ungrouped params = entries at hc
    induction entries with
    | nil => cases hc
    | cons entry entries ih =>
      cases entries with
      | nil => exact .inr ⟨entry, hc⟩
      | cons next entries =>
        rcases List.mem_append.1 hc with hc | hc
        · rcases List.mem_append.1 hc with hc | hc
          · exact .inr ⟨entry, hc⟩
          · exact .inl (List.mem_singleton.1 hc)
        · exact ih hc
  rcases hchar with rfl | ⟨entry, hentry⟩
  · decide
  · rcases eq_or_isPartChar_of_mem_encodeField hentry with rfl | h
    · decide
    · rw [isPartChar, Bool.or_eq_true, Bool.or_eq_true, beq_iff_eq, beq_iff_eq] at h
      rcases h with (rfl | rfl) | h
      · decide
      · decide
      · rw [isEncoded, h, Bool.true_or]

theorem length_toQuery_filter_le (params : Params) (p : String × List String → Bool) :
    (toQuery (params.filter p)).length ≤ params.toQuery.length := by
  rw [toQuery_eq_joined, toQuery_eq_joined]
  apply Text.length_joined_le
  exact (List.filter_sublist.flatMap _).map _

/-! ## Merging and removing -/

theorem first?_put (name value other : String) (params : Params) :
    first? (Ordered.put name [value] params) other =
      if name == other then some value else params.first? other := by
  rw [first?, Ordered.get?_put]
  split
  · rfl
  · rfl

theorem first?_merge_of_not_mem {name : String} {new : List (String × String)}
    (h : name ∉ Ordered.keys new) (params : Params) :
    (params.merge new).first? name = params.first? name := by
  induction new generalizing params with
  | nil => rfl
  | cons entry new ih =>
    rw [Ordered.keys_cons, List.mem_cons, not_or] at h
    have hne : ¬(entry.1 == name) = true := fun heq ↦ h.1 (beq_iff_eq.1 heq).symm
    rw [merge, List.foldl_cons, ← merge, ih h.2, first?_put, if_neg hne]

/-- What was merged is found under its name. -/
theorem first?_merge {new : List (String × String)} (hnew : (Ordered.keys new).Nodup)
    {entry : String × String} (h : entry ∈ new) (params : Params) :
    (params.merge new).first? entry.1 = some entry.2 := by
  induction new generalizing params with
  | nil => cases h
  | cons first new ih =>
    rw [Ordered.keys_cons, List.nodup_cons] at hnew
    rw [merge, List.foldl_cons, ← merge]
    rcases List.mem_cons.1 h with rfl | h
    · rw [first?_merge_of_not_mem hnew.1, first?_put, if_pos BEq.rfl]
    · exact ih hnew.2 h _

theorem filterMap_first?_merge {new : List (String × String)} (hnew : (Ordered.keys new).Nodup)
    (params : Params) :
    ((Ordered.keys new).filterMap fun name ↦
      ((params.merge new).first? name).map fun value ↦ (name, value)) = new := by
  have hfound (entry : String × String) (h : entry ∈ new) :
      (((params.merge new).first? entry.1).map fun value ↦ (entry.1, value)) = some entry := by
    rw [first?_merge hnew h]
    rfl
  rw [Ordered.keys, List.filterMap_map]
  exact (List.filterMap_congr hfound).trans List.filterMap_some

theorem foldl_remove_eq (names : List String) (params : Params) :
    names.foldl remove params = params.filter fun entry ↦ !names.contains entry.1 := by
  induction names generalizing params with
  | nil => exact (List.filter_eq_self.2 fun _ _ ↦ rfl).symm
  | cons name names ih =>
    rw [List.foldl_cons, ih, remove, Ordered.erase, List.filter_filter]
    refine List.filter_congr fun entry _ ↦ ?_
    rw [List.contains_cons, Bool.not_or, Bool.and_comm]

/-- What was merged leaves nothing behind once its names are removed. -/
theorem foldl_remove_merge {names : List String} {new : List (String × String)}
    (h : Ordered.keys new ⊆ names) (params : Params) :
    names.foldl remove (params.merge new) = names.foldl remove params := by
  rw [foldl_remove_eq, foldl_remove_eq]
  induction new generalizing params with
  | nil => rfl
  | cons entry new ih =>
    rw [Ordered.keys_cons, List.cons_subset] at h
    have hname : (!names.contains entry.1) = false := by
      rw [List.contains_iff_mem.2 h.1]
      rfl
    rw [merge, List.foldl_cons, ← merge, ih h.2,
      Ordered.filter_put (p := fun name ↦ !names.contains name) hname]

end Url.Params

end KeyTree
