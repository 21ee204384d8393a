import KeyTree.Proofs.Document.Canonical
import KeyTree.Proofs.Document.Names
import KeyTree.Proofs.Store.Calls
import KeyTree.Proofs.Tree.Twins

/-!
# Trees that have been read

Whatever document a tree is read from, the tree is one that records keep: its dictionaries have
different names, and it is no higher than its document is deep. So its own records give it back, with
zero for a negative zero. The tree that they give has the same records, and nothing changes any more.
-/

namespace KeyTree

/-! ## Height -/

namespace Raw

theorem height_coercionBranch_le (shape : Shape) (nodes : Forest) {id name : String} :
    (Node.mk id name (Coercion.branch shape nodes)).height ≤ Forest.height nodes + 1 := by
  cases shape with
  | dictionary =>
    rw [Coercion.branch, Node.height]
    exact Nat.succ_le_succ (Forest.height_collapse_le nodes)
  | list =>
    rw [Coercion.branch, Node.height]

/-- A node that is read is no higher than records may nest. -/
theorem height_le_of_recordToNode {room : Nat} {record : Raw} {n : Node}
    (h : recordToNode room record = .ok n) : n.height ≤ room := by
  induction room generalizing record n with
  | zero => cases h
  | succ room ih =>
    obtain ⟨fields, kind, -, -, hpayload⟩ := exists_of_recordToNode h
    obtain ⟨id, name, payload⟩ := n
    rcases payload_cases hpayload with ⟨value, rfl⟩ | ⟨shape, records, nodes, -, hnodes, rfl⟩
    · rw [Node.height]
      exact Nat.succ_pos room
    · have hbelow : Forest.height nodes ≤ room := by
        apply Forest.height_le_iff.2
        intro child hchild
        obtain ⟨record, -, hrecord⟩ := exists_of_mem_mapM hnodes hchild
        exact ih hrecord
      exact (height_coercionBranch_le shape nodes).trans (Nat.succ_le_succ hbelow)

/-- A tree that is read is one that records keep. -/
theorem isKept_of_recordsToForest {document : Raw} {root : Forest}
    (h : document.recordsToForest = .ok root) :
    (∀ n ∈ root, n.payload.HasUniqueNames) ∧ Forest.height root ≤ decodingLimit := by
  unfold recordsToForest at h
  split at h
  case h_1 records =>
    have hread : ∀ n ∈ root, ∃ record, recordToNode decodingLimit record = .ok n := by
      intro n hn
      obtain ⟨record, -, hrecord⟩ := exists_of_mem_mapM h hn
      exact ⟨record, hrecord⟩
    constructor
    · intro n hn
      obtain ⟨record, hrecord⟩ := hread n hn
      exact hasUniqueNames_recordToNode hrecord
    · apply Forest.height_le_iff.2
      intro n hn
      obtain ⟨record, hrecord⟩ := hread n hn
      exact height_le_of_recordToNode hrecord
  case h_2 => cases h

end Raw

/-- A tree from a slot is no higher than what is read. -/
theorem Slot.height_le_of_read {slot : Slot} {root : Forest} (h : slot.read = .ok root) :
    Forest.height root ≤ decodingLimit := by
  cases slot with
  | missing => cases h
  | directory => cases h
  | file content =>
    obtain ⟨document, -, hroot⟩ := exists_of_bind_eq_ok (eq_ok_of_mapError h)
    exact (Raw.isKept_of_recordsToForest hroot).2

/-! ## Records without negative zeros -/

/-- The sign of a zero is not recorded. -/
theorem Leaf.Twin.toRecordValue_eq {v w : Leaf} (h : v.Twin w) :
    v.toRecordValue = w.toRecordValue := by
  rcases h.eq_or with rfl | ⟨x, y, rfl, rfl, hxy⟩
  · rfl
  · rcases Quanta.integer?_eq_zero_or hxy with ⟨hx, hy⟩ | rfl
    · have hzero : ∀ z : Float, Quanta.integer? z = some 0 →
          (Leaf.number z).toRecordValue = .integer 0 := by
        intro z hz
        have hfinite : z.isFinite = true := by
          by_contra hnone
          rw [Quanta.integer?_of_not_isFinite hnone] at hz
          cases hz
        rw [toRecordValue, if_pos hfinite, Number.toJson, hz]
      rw [hzero x hx, hzero y hy]
    · rfl

theorem Leaf.kind_withoutNegativeZero (v : Leaf) : v.withoutNegativeZero.kind = v.kind := by
  cases v <;> rfl

mutual

theorem Node.toRecord_mapLeaves (n : Node) :
    (n.mapLeaves Leaf.withoutNegativeZero).toRecord = n.toRecord := by
  match n with
  | ⟨id, name, .leaf value⟩ =>
    have hvalue := (Leaf.twin_withoutNegativeZero value).toRecordValue_eq
    have hkind := Leaf.kind_withoutNegativeZero value
    rw [Node.mapLeaves, Node.toRecord, Node.toRecord, hvalue, Node.recordWith, Node.recordWith]
    simp only [Node.kind, Payload.kind, hkind]
  | ⟨id, name, .branch shape children⟩ =>
    rw [Node.mapLeaves, Node.toRecord, Node.toRecord, Forest.recordItems_mapLeaves children]
    rfl

theorem Forest.recordItems_mapLeaves (nodes : List Node) :
    Forest.recordItems (Forest.mapLeaves Leaf.withoutNegativeZero nodes) =
      Forest.recordItems nodes := by
  match nodes with
  | [] => rfl
  | n :: nodes =>
    rw [Forest.mapLeaves, Forest.recordItems, Forest.recordItems, Node.toRecord_mapLeaves n,
      Forest.recordItems_mapLeaves nodes]

end

namespace Forest

theorem toRecords_mapLeaves (root : Forest) :
    toRecords (mapLeaves Leaf.withoutNegativeZero root) = root.toRecords := by
  rw [toRecords, toRecords, recordItems_mapLeaves]

/-- What is saved of one tree is read as another one, and of this one the same is saved. -/
structure Reloads (root again : Forest) : Prop where
  records : root.toRecords.toRaw.recordsToForest = .ok again
  same : again.toRecords = root.toRecords
  slot : ∀ slot : Slot, slot ≠ .directory → ∃ kept, slot.save root = .ok kept ∧
    slot.save again = .ok kept ∧ kept.read = .ok again

/-- A tree that records keep is read again without negative zeros. -/
theorem reloads_of_isKept {root : Forest} (hnames : ∀ n ∈ root, n.payload.HasUniqueNames)
    (hheight : height root ≤ decodingLimit) :
    root.Reloads (mapLeaves Leaf.withoutNegativeZero root) where
  records := Raw.recordsToForest_toRecords hnames hheight
  same := toRecords_mapLeaves root
  slot := by
    intro slot hslot
    have hread := Raw.recordsToForest_toRecords hnames hheight
    have hagain := (Raw.isKept_of_recordsToForest hread).2
    have htext : recordText (mapLeaves Leaf.withoutNegativeZero root) = root.recordText := by
      rw [recordText, recordText, toRecords_mapLeaves]
    have hlow := isStorable_iff.2 hheight
    refine ⟨.ofText root.recordText, Slot.save_of_le hslot hlow.height_le, ?_, ?_⟩
    · rw [Slot.save_of_le hslot (isStorable_iff.2 hagain).height_le, htext]
    · exact Slot.read_ofText_recordText hnames hlow

/-- What has been reloaded once stays as it is. -/
theorem Reloads.again {root again : Forest} (h : root.Reloads again) : again.Reloads again where
  records := by
    rw [h.same]
    exact h.records
  same := rfl
  slot := by
    intro slot hslot
    obtain ⟨kept, -, hsave, hread⟩ := h.slot slot hslot
    exact ⟨kept, hsave, hsave, hread⟩

/--
A tree that has been read from any document is read again from what is saved of it: with all its
identities, names, kinds and values, in order, but with zero for a negative zero. From there on it
stays as it is.
-/
theorem reloads_of_recordsToForest {document : Raw} {root : Forest}
    (h : document.recordsToForest = .ok root) :
    root.Reloads (mapLeaves Leaf.withoutNegativeZero root) ∧
      Reloads (mapLeaves Leaf.withoutNegativeZero root)
        (mapLeaves Leaf.withoutNegativeZero root) := by
  obtain ⟨hnames, hheight⟩ := Raw.isKept_of_recordsToForest h
  have hreloads := reloads_of_isKept hnames hheight
  exact ⟨hreloads, hreloads.again⟩

/-- The record of a node whose fields are any values. -/
def looseRecord (id name : Raw) (type : String) (value : Raw) : Raw :=
  .dictionary [(.text "id", id), (.text "name", name), (.text "type", .text type), (.text "value", value)]

/-- A dictionary that holds a name twice, with identities and names that are no texts, numbers in
texts, and a list for a truth value. -/
def loose : Raw := .list [
  looseRecord (.integer 7) .null "dictionary" (.list [
    looseRecord (.text "a") (.text "x") "number" (.text "1.5"),
    looseRecord (.text "b") (.text "x") "number" (.text "-0.0"),
    looseRecord .null (.boolean true) "boolean" (.list [.null])])]

theorem reloads_loose : ∃ root : Forest, loose.recordsToForest = .ok root ∧
    root.Reloads [⟨"7", "None", .branch .dictionary [⟨"b", "x", .leaf (.number 0)⟩,
      ⟨"None", "True", .leaf (.boolean true)⟩]⟩] := by
  have hread : loose.recordsToForest = .ok [⟨"7", "None", .branch .dictionary [
      ⟨"b", "x", .leaf (.number (Quanta.toFloat true 0))⟩,
      ⟨"None", "True", .leaf (.boolean true)⟩]⟩] := rfl
  have hzero : Quanta.withoutNegativeZero (Quanta.toFloat true 0) = 0 := by decide
  have hreloads := (reloads_of_recordsToForest hread).1
  simp only [mapLeaves, Node.mapLeaves, Leaf.withoutNegativeZero, hzero] at hreloads
  exact ⟨_, hread, hreloads⟩

end Forest

end KeyTree
