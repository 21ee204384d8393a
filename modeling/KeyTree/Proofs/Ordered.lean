import KeyTree.Ordered
import Mathlib.Data.List.Induction
import Mathlib.Data.List.Nodup

/-!
# Keys of ordered associations

Putting a value keeps the keys apart and changes no other value. So a list of entries becomes one
entry for each key, in the place of its first entry and with the value of its last.
-/

namespace KeyTree.Ordered

variable {κ : Type} {β : Type}

/-- The keys in order. -/
def keys (table : List (κ × β)) : List κ := table.map (·.1)

@[simp]
theorem keys_nil : keys ([] : List (κ × β)) = [] := rfl

@[simp]
theorem keys_cons (entry : κ × β) (table : List (κ × β)) :
    keys (entry :: table) = entry.1 :: keys table := rfl

@[simp]
theorem keys_append (left right : List (κ × β)) :
    keys (left ++ right) = keys left ++ keys right := List.map_append

theorem keys_map_eq_replicate (key : κ) (values : List β) :
    keys (values.map fun value ↦ (key, value)) = List.replicate values.length key := by
  rw [keys, List.map_map]
  exact List.map_const'

variable [BEq κ]

theorem ofList_append_singleton (entries : List (κ × β)) (entry : κ × β) :
    ofList (entries ++ [entry]) = put entry.1 entry.2 (ofList entries) := by
  rw [ofList, ofList, List.foldl_append]
  rfl

theorem put_map {γ : Type} (f : β → γ) (key : κ) (value : β) (table : List (κ × β)) :
    put key (f value) (table.map (Prod.map id f)) = (put key value table).map (Prod.map id f) := by
  induction table with
  | nil => rfl
  | cons entry table ih =>
    obtain ⟨k, v⟩ := entry
    rw [List.map_cons, Prod.map_apply, put, put, id_eq]
    by_cases heq : (k == key) = true
    · rw [if_pos heq, if_pos heq, List.map_cons, Prod.map_apply]
      rfl
    · rw [if_neg heq, if_neg heq, List.map_cons, Prod.map_apply, ih]
      rfl

/-- The values of a table may be changed before or after it is made. -/
theorem ofList_map {γ : Type} (f : β → γ) (entries : List (κ × β)) :
    ofList (entries.map (Prod.map id f)) = (ofList entries).map (Prod.map id f) := by
  induction entries using List.reverseRecOn with
  | nil => rfl
  | append_singleton entries entry ih =>
    rw [List.map_append, List.map_singleton, ofList_append_singleton, ofList_append_singleton, ih]
    exact put_map f entry.1 entry.2 _

variable [LawfulBEq κ]

theorem put_of_not_mem {key : κ} {value : β} {table : List (κ × β)} (h : key ∉ keys table) :
    put key value table = table ++ [(key, value)] := by
  induction table with
  | nil => rfl
  | cons entry table ih =>
    rw [keys_cons, List.mem_cons, not_or] at h
    have hne : ¬ (entry.1 == key) = true := by
      rw [beq_iff_eq]
      exact fun heq ↦ h.1 heq.symm
    rw [put, if_neg hne, ih h.2, List.cons_append]

theorem keys_put_of_mem {key : κ} {value : β} {table : List (κ × β)} (h : key ∈ keys table) :
    keys (put key value table) = keys table := by
  induction table with
  | nil => cases h
  | cons entry table ih =>
    rw [put]
    split
    · rfl
    case isFalse hne =>
      rw [beq_iff_eq] at hne
      have hrest : key ∈ keys table := (List.mem_cons.1 h).resolve_left fun heq ↦ hne heq.symm
      rw [keys_cons, keys_cons, ih hrest]

/-- Putting a value keeps the keys apart. -/
theorem nodup_keys_put (key : κ) (value : β) {table : List (κ × β)} (h : (keys table).Nodup) :
    (keys (put key value table)).Nodup := by
  by_cases hmem : key ∈ keys table
  · rw [keys_put_of_mem hmem]
    exact h
  · rw [put_of_not_mem hmem, keys_append]
    apply List.nodup_append.2
    refine ⟨h, List.nodup_singleton key, ?_⟩
    intro a ha b hb heq
    obtain rfl : b = key := List.mem_singleton.1 hb
    exact hmem (heq ▸ ha)

theorem mem_put {key : κ} {value : β} {table : List (κ × β)} {entry : κ × β}
    (h : entry ∈ put key value table) : entry = (key, value) ∨ entry ∈ table := by
  induction table with
  | nil => exact .inl (List.mem_singleton.1 h)
  | cons head table ih =>
    rw [put] at h
    split at h
    case isTrue heq =>
      rw [beq_iff_eq] at heq
      rcases List.mem_cons.1 h with rfl | h
      · exact .inl (by rw [heq])
      · exact .inr (List.mem_cons_of_mem _ h)
    case isFalse =>
      rcases List.mem_cons.1 h with rfl | h
      · exact .inr List.mem_cons_self
      · exact (ih h).imp_right (List.mem_cons_of_mem _)

theorem get?_cons (key : κ) (entry : κ × β) (table : List (κ × β)) :
    get? key (entry :: table) = if entry.1 == key then some entry.2 else get? key table := by
  unfold get?
  rw [List.find?_cons]
  split <;> simp_all

theorem get?_put (key key' : κ) (value : β) (table : List (κ × β)) :
    get? key (put key' value table) = if key' == key then some value else get? key table := by
  induction table with
  | nil => exact get?_cons key (key', value) []
  | cons entry table ih =>
    rw [put]
    split
    case isTrue heq =>
      rw [beq_iff_eq] at heq
      rw [get?_cons, get?_cons, heq]
      split <;> rfl
    case isFalse hne =>
      rw [get?_cons, get?_cons, ih]
      split
      case isTrue heq =>
        rw [beq_iff_eq] at heq
        rw [if_neg (by rwa [← heq, beq_iff_eq, eq_comm, ← beq_iff_eq])]
      · rfl

theorem get?_erase_of_ne {key key' : κ} {table : List (κ × β)} (h : key' ≠ key) :
    get? key (erase key' table) = get? key table := by
  induction table with
  | nil => rfl
  | cons entry table ih =>
    rw [erase, List.filter_cons]
    split
    case isTrue => rw [get?_cons, get?_cons, ← ih, erase]
    case isFalse hentry =>
      rw [get?_cons, ← ih, erase]
      have hne : (entry.1 == key) = false := by
        rw [beq_eq_false_iff_ne]
        intro heq
        simp [heq, h.symm] at hentry
      rw [hne]
      rfl

theorem get?_filter (p : κ → Bool) (key : κ) (table : List (κ × β)) :
    get? key (table.filter fun entry ↦ p entry.1) = if p key then get? key table else none := by
  induction table with
  | nil => simp [get?]
  | cons entry table ih =>
    by_cases hkey : entry.1 = key
    · by_cases hp : p key = true <;> simp [get?_cons, hkey, hp, ih]
    · by_cases hp : p entry.1 = true <;> simp [get?_cons, hkey, hp, ih]

/-! ## Lists of entries -/

/-- Entries with different keys stay as they are. -/
theorem ofList_eq_self {entries : List (κ × β)} (h : (keys entries).Nodup) :
    ofList entries = entries := by
  induction entries using List.reverseRecOn with
  | nil => rfl
  | append_singleton entries entry ih =>
    rw [keys_append, List.nodup_append] at h
    have hnew : entry.1 ∉ keys entries := fun hmem ↦ h.2.2 _ hmem _ List.mem_cons_self rfl
    rw [ofList_append_singleton, ih h.1, put_of_not_mem hnew]

theorem nodup_keys_ofList (entries : List (κ × β)) : (keys (ofList entries)).Nodup := by
  induction entries using List.reverseRecOn with
  | nil => exact List.nodup_nil
  | append_singleton entries entry ih =>
    rw [ofList_append_singleton]
    exact nodup_keys_put _ _ ih

/-- The keys stand where they stand first. -/
theorem keys_ofList (entries : List (κ × β)) :
    keys (ofList entries) = (keys entries).eraseDups := by
  induction entries using List.reverseRecOn with
  | nil => rfl
  | append_singleton entries entry ih =>
    rw [ofList_append_singleton, keys_append, List.eraseDups_append, keys_cons, keys_nil]
    by_cases hmem : entry.1 ∈ keys entries
    · have hold : [entry.1].removeAll (keys entries) = [] := by
        simp [List.removeAll, hmem]
      have hput : entry.1 ∈ keys (ofList entries) := by
        rw [ih]
        exact List.mem_eraseDups.2 hmem
      rw [keys_put_of_mem hput, ih, hold, List.eraseDups_nil, List.append_nil]
    · have hnew : [entry.1].removeAll (keys entries) = [entry.1] := by
        simp [List.removeAll, hmem]
      have hput : entry.1 ∉ keys (ofList entries) := by
        rw [ih]
        exact fun h ↦ hmem (List.mem_eraseDups.1 h)
      rw [put_of_not_mem hput, keys_append, ih, hnew]
      rfl

/-- The value of a key is the last one. -/
theorem get?_ofList (key : κ) (entries : List (κ × β)) :
    get? key (ofList entries) = get? key entries.reverse := by
  induction entries using List.reverseRecOn with
  | nil => rfl
  | append_singleton entries entry ih =>
    rw [ofList_append_singleton, get?_put, ih, List.reverse_concat', get?_cons]

theorem mem_of_mem_ofList {entries : List (κ × β)} {entry : κ × β} (h : entry ∈ ofList entries) :
    entry ∈ entries := by
  induction entries using List.reverseRecOn with
  | nil => cases h
  | append_singleton entries last ih =>
    rw [ofList_append_singleton] at h
    rcases mem_put h with rfl | h
    · exact List.mem_append_right _ List.mem_cons_self
    · exact List.mem_append_left _ (ih h)

/-- A value does not show among the entries of other keys. -/
theorem filter_put {p : κ → Bool} {key : κ} (hkey : p key = false) (value : β)
    (table : List (κ × β)) :
    (put key value table).filter (fun entry ↦ p entry.1) =
      table.filter fun entry ↦ p entry.1 := by
  induction table with
  | nil => exact List.filter_cons_of_neg (by simp [hkey])
  | cons entry table ih =>
    rw [put]
    split
    case isTrue heq =>
      rw [beq_iff_eq] at heq
      have hout : ¬ p entry.1 = true := by simp [heq, hkey]
      rw [List.filter_cons_of_neg (by exact hout), List.filter_cons_of_neg (by exact hout)]
    case isFalse => rw [List.filter_cons, List.filter_cons, ih]

/-! ## Groups -/

section Groups

omit [LawfulBEq κ]

/-- The values of a key among entries. -/
def valuesOf (key : κ) (entries : List (κ × β)) : List β :=
  (entries.filter fun entry ↦ entry.1 == key).map (·.2)

theorem group_eq_map (entries : List (κ × β)) :
    group entries = (keys entries).eraseDups.map fun key ↦ (key, valuesOf key entries) := rfl

theorem keys_group (entries : List (κ × β)) : keys (group entries) = (keys entries).eraseDups := by
  rw [group_eq_map, keys, List.map_map]
  exact List.map_id _

theorem valuesOf_append (key : κ) (left right : List (κ × β)) :
    valuesOf key (left ++ right) = valuesOf key left ++ valuesOf key right := by
  rw [valuesOf, List.filter_append, List.map_append, ← valuesOf, ← valuesOf]

end Groups

theorem nodup_keys_group (entries : List (κ × β)) : (keys (group entries)).Nodup := by
  rw [keys_group, ← keys_ofList]
  exact nodup_keys_ofList entries

theorem valuesOf_eq_nil_iff {key : κ} {entries : List (κ × β)} :
    valuesOf key entries = [] ↔ key ∉ keys entries := by
  rw [valuesOf, List.map_eq_nil_iff, List.filter_eq_nil_iff]
  constructor
  · intro h hmem
    obtain ⟨entry, hentry, rfl⟩ := List.mem_map.1 hmem
    exact h entry hentry (beq_self_eq_true _)
  · intro h entry hentry heq
    exact h (beq_iff_eq.1 heq ▸ List.mem_map_of_mem hentry)

/-- Every group has a value. -/
theorem ne_nil_of_mem_group {entries : List (κ × β)} {entry : κ × List β}
    (h : entry ∈ group entries) : entry.2 ≠ [] := by
  rw [group_eq_map] at h
  obtain ⟨key, hkey, rfl⟩ := List.mem_map.1 h
  intro hnil
  exact valuesOf_eq_nil_iff.1 hnil (List.mem_eraseDups.1 hkey)

theorem valuesOf_map_self (key : κ) (values : List β) :
    valuesOf key (values.map fun value ↦ (key, value)) = values := by
  have hall : (values.map fun value ↦ (key, value)).filter (fun entry ↦ entry.1 == key) =
      values.map fun value ↦ (key, value) := by
    rw [List.filter_eq_self]
    intro entry hentry
    obtain ⟨value, -, rfl⟩ := List.mem_map.1 hentry
    exact beq_self_eq_true key
  rw [valuesOf, hall, List.map_map]
  exact List.map_id values

theorem eraseDups_replicate_append {key : κ} {count : Nat} (hcount : count ≠ 0) {rest : List κ}
    (hrest : key ∉ rest) :
    (List.replicate count key ++ rest).eraseDups = key :: rest.eraseDups := by
  obtain ⟨more, rfl⟩ := Nat.exists_eq_succ_of_ne_zero hcount
  have hmore : (List.replicate more key).filter (fun k ↦ !k == key) = [] := by
    rw [List.filter_eq_nil_iff]
    intro k hk
    rw [List.eq_of_mem_replicate hk]
    simp
  have hothers : rest.filter (fun k ↦ !k == key) = rest := by
    rw [List.filter_eq_self]
    intro k hk
    have hne : k ≠ key := fun heq ↦ hrest (heq ▸ hk)
    simpa using hne
  rw [Nat.succ_eq_add_one, List.replicate_succ, List.cons_append, List.eraseDups_cons,
    List.filter_append, hmore, hothers, List.nil_append]

/-- Entries of a new key are a group of their own. -/
theorem group_append {key : κ} {values : List β} (hvalues : values ≠ []) {entries : List (κ × β)}
    (hkey : key ∉ keys entries) :
    group ((values.map fun value ↦ (key, value)) ++ entries) = (key, values) :: group entries := by
  have hlength : values.length ≠ 0 := fun h ↦ hvalues (List.eq_nil_of_length_eq_zero h)
  rw [group_eq_map, keys_append, keys_map_eq_replicate, eraseDups_replicate_append hlength hkey,
    List.map_cons, valuesOf_append, valuesOf_map_self, valuesOf_eq_nil_iff.2 hkey, List.append_nil,
    group_eq_map]
  congr 1
  apply List.map_congr_left
  intro k hk
  have hother : k ∉ keys (values.map fun value ↦ (key, value)) := by
    rw [keys_map_eq_replicate]
    intro hmem
    rw [List.eq_of_mem_replicate hmem] at hk
    exact hkey (List.mem_eraseDups.1 hk)
  rw [valuesOf_append, valuesOf_eq_nil_iff.2 hother, List.nil_append]

/-- The entries of groups, in order. -/
def ungrouped (table : List (κ × List β)) : List (κ × β) :=
  table.flatMap fun entry ↦ entry.2.map fun value ↦ (entry.1, value)

/-- Entries are grouped as they were, if the keys of the groups are different and no group is
empty. -/
theorem group_ungrouped {table : List (κ × List β)} (hkeys : (keys table).Nodup)
    (hvalues : ∀ entry ∈ table, entry.2 ≠ []) : group (ungrouped table) = table := by
  induction table with
  | nil => rfl
  | cons entry table ih =>
    rw [keys_cons, List.nodup_cons] at hkeys
    rw [List.forall_mem_cons] at hvalues
    have hnew : entry.1 ∉ keys (ungrouped table) := by
      intro hmem
      obtain ⟨flat, hflat, heq⟩ := List.mem_map.1 hmem
      obtain ⟨other, hother, hvalue⟩ := List.mem_flatMap.1 hflat
      obtain ⟨value, -, rfl⟩ := List.mem_map.1 hvalue
      exact hkeys.1 (heq ▸ List.mem_map_of_mem hother)
    rw [ungrouped, List.flatMap_cons, ← ungrouped, group_append hvalues.1 hnew,
      ih hkeys.2 hvalues.2]

end KeyTree.Ordered
