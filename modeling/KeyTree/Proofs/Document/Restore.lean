import KeyTree.Proofs.Document.Record
import KeyTree.Proofs.Json.Depth
import KeyTree.Proofs.Tree.Edits
import KeyTree.Proofs.Tree.Put
import KeyTree.Store.Slot

/-!
# What is kept is restored

Whether the records of a tree give the tree back depends on its height alone. A tree that is low
enough comes back as it was, also through the text that a slot keeps, but that a negative zero comes
back as zero. The records of a tree that is too high are refused as a whole, and so is their text. A
slot takes trees that are a little higher than those whose records it reads.
-/

namespace KeyTree

namespace Raw

mutual

/-- The record of a node that is too high is refused, at whatever child it goes too deep. -/
theorem recordToNode_toRecord_of_lt {room : Nat} (n : Node) (hnames : n.payload.HasUniqueNames)
    (hroom : room < n.height) : recordToNode room n.toRecord.toRaw = .error .tooDeep := by
  match room, n with
  | 0, _ => rw [recordToNode]
  | room + 1, ⟨id, name, .leaf value⟩ =>
    rw [Node.height] at hroom
    omega
  | room + 1, ⟨id, name, .branch shape children⟩ =>
    rw [Node.height] at hroom
    rw [Payload.hasUniqueNames_branch] at hnames
    have hchildren := mapM_recordToNode_of_lt children hnames.2 (Nat.succ_lt_succ_iff.1 hroom)
    rw [Node.toRecord, recordToNode_eq (fields?_recordWith ⟨id, name, .branch shape children⟩ _)
      (kind?_name shape.kind), Fields.payload, shape?_kind]
    simp only [Json.toRaw]
    rw [hchildren]
    rfl

theorem mapM_recordToNode_of_lt {room : Nat} (nodes : List Node)
    (hnames : ∀ n ∈ nodes, n.payload.HasUniqueNames) (hroom : room < Forest.height nodes) :
    (Json.itemsToRaw (Forest.recordItems nodes)).mapM (recordToNode room) = .error .tooDeep := by
  match nodes with
  | [] => exact absurd hroom (Nat.not_lt_zero room)
  | n :: nodes =>
    rw [Forest.height] at hroom
    rw [List.forall_mem_cons] at hnames
    rw [Forest.recordItems, Json.itemsToRaw, List.mapM_cons]
    by_cases hn : room < n.height
    · rw [recordToNode_toRecord_of_lt n hnames.1 hn]
      rfl
    · rw [recordToNode_toRecord n hnames.1 (Nat.not_lt.1 hn),
        mapM_recordToNode_of_lt nodes hnames.2 (by omega)]
      rfl

end

/-- The records of a tree are read if and only if the tree is low enough. -/
theorem recordsToForest_toRecords_eq_ite {root : Forest}
    (hnames : ∀ n ∈ root, n.payload.HasUniqueNames) :
    root.toRecords.toRaw.recordsToForest =
      if Forest.height root ≤ decodingLimit then
        .ok (Forest.mapLeaves Leaf.withoutNegativeZero root)
      else .error .tooDeep := by
  split
  case isTrue h => exact recordsToForest_toRecords hnames h
  case isFalse h => exact mapM_recordToNode_of_lt root hnames (Nat.not_le.1 h)

end Raw

namespace Json

mutual

/-- Every level of a tree but the last takes an object and an array in its records. -/
theorem le_depth_toRecord (n : Node) : 2 * n.height ≤ n.toRecord.depth + 1 := by
  match n with
  | ⟨id, name, .leaf value⟩ =>
    simp only [Node.height, Node.toRecord, Node.recordWith, depth]
    omega
  | ⟨id, name, .branch shape children⟩ =>
    have hchildren := le_itemsDepth_recordItems children
    simp only [Node.height, Node.toRecord, Node.recordWith, depth, membersDepth]
    omega

theorem le_itemsDepth_recordItems (nodes : List Node) :
    2 * Forest.height nodes ≤ itemsDepth (Forest.recordItems nodes) + 1 := by
  match nodes with
  | [] => exact Nat.zero_le _
  | n :: nodes =>
    have hn := le_depth_toRecord n
    have hnodes := le_itemsDepth_recordItems nodes
    rw [Forest.height, Forest.recordItems, itemsDepth]
    omega

end

end Json

/-- What can be read again can be written. -/
theorem Forest.IsStorable.height_le {root : Forest} (h : root.IsStorable) :
    height root ≤ encodingLimit := by
  have hlimits : decodingLimit < encodingLimit := by decide
  exact h.1.trans hlimits.le

/-- Trees of which no text is read are those whose records are not, as the two limits agree. -/
theorem Forest.isStorable_iff {root : Forest} : root.IsStorable ↔ height root ≤ decodingLimit := by
  have hlimits : 2 * decodingLimit < callLimit := by decide
  exact ⟨fun h ↦ h.1, fun h ↦ ⟨h, by omega⟩⟩

/-- The text of the records of a tree that is too high is refused. -/
theorem Forest.ofRecordSource_recordText_of_lt {root : Forest} (h : decodingLimit < height root) :
    ofRecordSource (.bytes (Text.toUtf8 root.recordText.toList)) = .error .tooDeep := by
  have hlimits : callLimit < 2 * (decodingLimit + 1) := by decide
  have hdepth := Json.le_itemsDepth_recordItems root
  have hreadable : root.toRecords.IsReadable (2 * height root + 1) := by
    rw [toRecords, Json.IsReadable]
    exact ⟨Nat.succ_pos _, Json.itemsReadable_recordItems root (by omega)⟩
  have hdeep : callLimit < root.toRecords.depth := by
    rw [toRecords, Json.depth]
    omega
  unfold ofRecordSource
  rw [read_bytes_recordText,
    Json.readChars_write_of_lt (Json.Style.isStandard_line false) hreadable hdeep]
  rfl

namespace Slot

theorem save_of_le {root : Forest} {slot : Slot} (hslot : slot ≠ .directory)
    (hheight : Forest.height root ≤ encodingLimit) :
    slot.save root = .ok (.ofText root.recordText) := by
  unfold save
  rw [if_neg (Nat.not_lt.2 hheight)]
  cases slot with
  | directory => exact absurd rfl hslot
  | missing | file => rfl

theorem save_of_lt {root : Forest} (slot : Slot) (hheight : encodingLimit < Forest.height root) :
    slot.save root = .error .tooDeep := by
  unfold save
  rw [if_pos hheight]

theorem read_ofText_recordText {root : Forest} (hnames : ∀ n ∈ root, n.payload.HasUniqueNames)
    (hlow : root.IsStorable) :
    (ofText root.recordText).read = .ok (Forest.mapLeaves Leaf.withoutNegativeZero root) := by
  rw [ofText, read, Forest.ofRecordSource_recordText hnames hlow]
  rfl

theorem read_ofText_recordText_of_lt {root : Forest} (h : decodingLimit < Forest.height root) :
    (ofText root.recordText).read = .error (.unreadable .tooDeep) := by
  rw [ofText, read, Forest.ofRecordSource_recordText_of_lt h]
  rfl

end Slot

namespace Forest

/--
A tree whose dictionaries have different names is restored from its records, unless it is too high,
and from any slot that takes it: with all its identities, names, kinds and values, in order, but with
zero for a negative zero.
-/
theorem restored_of_kept {root : Forest} (hnames : ∀ n ∈ root, n.payload.HasUniqueNames) :
    (root.toRecords.toRaw.recordsToForest =
      if height root ≤ decodingLimit then .ok (mapLeaves Leaf.withoutNegativeZero root)
      else .error .tooDeep) ∧
    (root.IsStorable → ∀ slot : Slot, slot ≠ .directory →
      ∃ kept, slot.save root = .ok kept ∧
        kept.read = .ok (mapLeaves Leaf.withoutNegativeZero root)) := by
  refine ⟨Raw.recordsToForest_toRecords_eq_ite hnames, ?_⟩
  intro hlow slot hslot
  exact ⟨_, Slot.save_of_le hslot hlow.height_le, Slot.read_ofText_recordText hnames hlow⟩

/-- A tree with two nodes of one name and identity, a list whose nodes share a name, a number that is
none, a negative zero and a formula. -/
def repeating : Forest := [
  ⟨"a", "x", .branch .list [
    ⟨"b", "0", .leaf (.number (0 / 0))⟩,
    ⟨"b", "0", .leaf (.number (Quanta.toFloat true 0))⟩,
    ⟨"c", "2", .leaf (.expression "1 + 1")⟩]⟩,
  ⟨"a", "x", .branch .dictionary [⟨"c", "y", .leaf (.boolean true)⟩]⟩]

theorem restored_repeating :
    repeating.toRecords.toRaw.recordsToForest =
      .ok (mapLeaves Leaf.withoutNegativeZero repeating) ∧
    ∃ kept, Slot.missing.save repeating = .ok kept ∧
      kept.read = .ok (mapLeaves Leaf.withoutNegativeZero repeating) := by
  have hnames : ∀ n ∈ repeating, n.payload.HasUniqueNames := by
    simp only [repeating, List.forall_mem_cons]
    refine ⟨.branch (Shape.admits_list _) ?_, .branch (Shape.admits_dictionary.2 (by decide)) ?_,
      fun n hn ↦ by cases hn⟩
    · simp only [List.forall_mem_cons]
      exact ⟨.leaf _, .leaf _, .leaf _, fun n hn ↦ by cases hn⟩
    · simp only [List.forall_mem_cons]
      exact ⟨.leaf _, fun n hn ↦ by cases hn⟩
  obtain ⟨hrecords, hslot⟩ := restored_of_kept hnames
  exact ⟨hrecords.trans (if_pos (by decide)), hslot ⟨by decide, by decide⟩ .missing Slot.noConfusion⟩

/-- A text at the end of a path of seven hundred segments. -/
def deep : Forest := [chain ⟨0⟩ (.leaf (.text "x")) "a" (List.replicate 699 "a")]

/-- Different names alone do not bring a tree back. -/
theorem deep_not_restored :
    (∀ n ∈ deep, n.payload.HasUniqueNames) ∧
      deep.toRecords.toRaw.recordsToForest = .error .tooDeep ∧
      Slot.missing.save deep = .error .tooDeep := by
  have hnames : ∀ n ∈ deep, n.payload.HasUniqueNames := by
    have hbare : Payload.IsBare (.leaf (.text "x")) := rfl
    rw [deep, List.forall_mem_singleton]
    exact (chain_spec ⟨0⟩ hbare "a" _).2.1
  have hheight : encodingLimit < height deep := by
    have hlength := length_lt_height_chain ⟨0⟩ (.leaf (.text "x")) "a" (List.replicate 699 "a")
    rw [List.length_replicate] at hlength
    rw [deep, height_singleton]
    exact Nat.lt_trans (by decide) hlength
  have hlimits : decodingLimit < encodingLimit := by decide
  exact ⟨hnames, Raw.mapM_recordToNode_of_lt deep hnames (hlimits.trans hheight),
    Slot.save_of_lt .missing hheight⟩

end Forest

end KeyTree
