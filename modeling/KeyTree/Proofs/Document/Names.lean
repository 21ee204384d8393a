import KeyTree.Proofs.Document.Import
import KeyTree.Proofs.Document.Record
import KeyTree.Store.Slot

/-!
# Names of trees that come from outside

A dictionary that is read from a record has one child under each name: the last one, in the place of
the first. Nothing collapses the records at the root and the entries of a plain document, so there
the names are different only where the records and the keys give different names.
-/

namespace KeyTree

/-- Kinds without children have leaves. -/
theorem Kind.exists_leaf_of_coerce {kind : Kind} {raw : Raw} {payload : Payload Node}
    (hkind : kind.shape? = none) (h : kind.coerce raw = .ok payload) :
    ∃ value, payload = .leaf value := by
  cases kind with
  | dictionary => cases hkind
  | list => cases hkind
  | number =>
    unfold coerce at h
    dsimp only at h
    split at h
    · exact ⟨_, (Except.ok.inj h).symm⟩
    · cases h
  | _ => exact ⟨_, (Except.ok.inj h).symm⟩

namespace Raw

/-- The names that a list of records gives to its nodes. -/
def recordNames : Raw → List String
  | list records => (records.filterMap fields?).map fun fields ↦ fields.name.plain
  | _ => []

/-- The records of the children of a record. -/
def childRecords (record : Raw) : List Raw :=
  match record.fields?.map (·.value) with
  | some (list records) => records
  | _ => []

theorem childRecords_eq {record : Raw} {fields : Fields} {records : List Raw}
    (hfields : record.fields? = some fields) (hvalue : fields.value = list records) :
    record.childRecords = records := by
  rw [childRecords, hfields, Option.map_some, hvalue]

/-- The name, the kind and the payload of a node that is read. -/
theorem exists_of_recordToNode {room : Nat} {record : Raw} {n : Node}
    (h : recordToNode room record = .ok n) :
    ∃ fields kind, record.fields? = some fields ∧ n.name = fields.name.plain ∧
      fields.payload (room - 1) kind = .ok n.payload := by
  cases room with
  | zero => cases h
  | succ room =>
    cases hfields : record.fields? with
    | none =>
      rw [recordToNode, hfields] at h
      cases h
    | some fields =>
      cases hkind : fields.type.kind? with
      | none =>
        rw [recordToNode, hfields] at h
        simp only [hkind] at h
        cases h
      | some kind =>
        rw [recordToNode_eq hfields hkind] at h
        obtain ⟨payload, hpayload, rfl⟩ := exists_of_map_eq_ok h
        exact ⟨fields, kind, rfl, rfl, hpayload⟩

/-- A payload is a leaf, or a branch of what the child records give. -/
theorem payload_cases {room : Nat} {fields : Fields} {kind : Kind} {payload : Payload Node}
    (h : fields.payload room kind = .ok payload) :
    (∃ value, payload = .leaf value) ∨ ∃ shape records nodes, fields.value = list records ∧
      records.mapM (recordToNode room) = .ok nodes ∧ payload = Coercion.branch shape nodes := by
  unfold Fields.payload at h
  cases hshape : kind.shape? with
  | none =>
    rw [hshape] at h
    left
    exact Kind.exists_leaf_of_coerce hshape (eq_ok_of_mapError h)
  | some shape =>
    rw [hshape] at h
    right
    dsimp only at h
    split at h
    case h_1 records hvalue =>
      obtain ⟨nodes, hnodes, hbranch⟩ := exists_of_map_eq_ok h
      exact ⟨shape, records, nodes, hvalue, hnodes, hbranch.symm⟩
    case h_2 => cases h

theorem hasUniqueNames_coercionBranch (shape : Shape) {nodes : Forest}
    (h : ∀ n ∈ nodes, n.payload.HasUniqueNames) :
    (Coercion.branch shape nodes).HasUniqueNames := by
  cases shape with
  | dictionary =>
    exact .branch (Shape.admits_dictionary.2 (Forest.nodup_names_collapse nodes))
      fun n hn ↦ h n (Forest.mem_of_mem_collapse hn)
  | list => exact .branch (Shape.admits_list nodes) h

/-- The dictionaries in a node that is read have different names, at every depth. -/
theorem hasUniqueNames_recordToNode {room : Nat} {record : Raw} {n : Node}
    (h : recordToNode room record = .ok n) : n.payload.HasUniqueNames := by
  induction room generalizing record n with
  | zero => cases h
  | succ room ih =>
    obtain ⟨fields, kind, -, -, hpayload⟩ := exists_of_recordToNode h
    rcases payload_cases hpayload with ⟨value, hvalue⟩ | ⟨shape, records, nodes, -, hnodes, hbranch⟩
    · rw [hvalue]
      exact .leaf value
    · rw [hbranch]
      apply hasUniqueNames_coercionBranch
      intro child hchild
      obtain ⟨record, -, hrecord⟩ := exists_of_mem_mapM hnodes hchild
      exact ih hrecord

/-- The children of a dictionary are what its child records give, collapsed. -/
theorem exists_children_of_recordToNode {room : Nat} {record : Raw} {n : Node} {children : Forest}
    (h : recordToNode room record = .ok n) (hn : n.payload = .branch .dictionary children) :
    ∃ nodes, record.childRecords.mapM (recordToNode (room - 1)) = .ok nodes ∧
      children = Forest.collapse nodes := by
  obtain ⟨fields, kind, hfields, -, hpayload⟩ := exists_of_recordToNode h
  rw [hn] at hpayload
  rcases payload_cases hpayload with ⟨value, hvalue⟩ |
    ⟨shape, records, nodes, hvalue, hnodes, hbranch⟩
  · cases hvalue
  · rw [childRecords_eq hfields hvalue]
    refine ⟨nodes, hnodes, ?_⟩
    cases shape with
    | dictionary => exact (Payload.branch.inj hbranch).2
    | list => cases hbranch

theorem names_of_forall₂ {room : Nat} {records : List Raw} {root : Forest}
    (h : List.Forall₂ (fun record n ↦ recordToNode room record = .ok n) records root) :
    root.names = (list records).recordNames := by
  induction h with
  | nil => rfl
  | @cons record n records root hn _ ih =>
    obtain ⟨fields, -, hfields, hname, -⟩ := exists_of_recordToNode hn
    rw [Forest.names_cons, hname, ih, recordNames, recordNames, List.filterMap_cons, hfields]
    rfl

/-- The nodes at the root have the names that the records give. -/
theorem hasUniqueNames_recordsToForest_iff {document : Raw} {root : Forest}
    (h : document.recordsToForest = .ok root) :
    root.HasUniqueNames ↔ document.recordNames.Nodup := by
  unfold recordsToForest at h
  split at h
  case h_1 records =>
    rw [← names_of_forall₂ (forall₂_of_mapM h), Forest.HasUniqueNames, Forest.HasUniqueNamesAs,
      Shape.admits_dictionary]
    apply and_iff_left
    intro n hn
    obtain ⟨record, -, hrecord⟩ := exists_of_mem_mapM h hn
    exact hasUniqueNames_recordToNode hrecord
  case h_2 => cases h

/--
An imported tree has different names just where the keys give different names. A tree of records has
them where the records at its root do. Within a record every dictionary collapses what its child
records give.
-/
theorem uniqueNames_of_documents (supply : Supply) (document : Raw) :
    (∀ root supply', Forest.ofDocument supply document = .ok (root, supply') →
      (root.HasUniqueNames ↔ document.HasUniqueNames)) ∧
    (∀ root, document.recordsToForest = .ok root →
      (root.HasUniqueNames ↔ document.recordNames.Nodup)) ∧
    ∀ room n, recordToNode room document = .ok n → n.payload.HasUniqueNames ∧
      ∀ children, n.payload = .branch .dictionary children →
        ∃ nodes, document.childRecords.mapM (recordToNode (room - 1)) = .ok nodes ∧
          Forest.names children = (Forest.names nodes).eraseDups ∧
          ∀ name, Forest.named? children name = Forest.named? nodes.reverse name := by
  refine ⟨?_, ?_, ?_⟩
  · intro root supply' h
    exact (Forest.ofDocument_spec h).1
  · intro root h
    exact hasUniqueNames_recordsToForest_iff h
  · intro room n h
    refine ⟨hasUniqueNames_recordToNode h, ?_⟩
    intro children hn
    obtain ⟨nodes, hnodes, rfl⟩ := exists_children_of_recordToNode h hn
    exact ⟨nodes, hnodes, Forest.names_collapse nodes, Forest.named?_collapse nodes⟩

/-- The last of two records of a name is read, where both are in a dictionary. -/
theorem uniqueNames_of_one_dictionary :
    ∃ root, (Forest.toRecords [⟨"c", "config", .branch .dictionary
        [Forest.leaf "x" (.text "1"), Forest.leaf "x" (.text "2")]⟩]).toRaw.recordsToForest =
      .ok root ∧ root.HasUniqueNames := by
  have hread : (Forest.toRecords [⟨"c", "config", .branch .dictionary
      [Forest.leaf "x" (.text "1"), Forest.leaf "x" (.text "2")]⟩]).toRaw.recordsToForest =
      .ok [⟨"c", "config", .branch .dictionary [Forest.leaf "x" (.text "2")]⟩] := rfl
  have hunique := (uniqueNames_of_documents ⟨0⟩ _).2.1 _ hread
  exact ⟨_, hread, hunique.2 (List.nodup_singleton "config")⟩

/-- Keys of different types give a name twice, and so do records at the root. -/
theorem exists_repeated_names :
    (∃ root supply, Forest.ofDocument ⟨0⟩
        (.dictionary [(.integer 1, .text "a"), (.text "1", .text "b")]) = .ok (root, supply) ∧
      ¬ root.HasUniqueNames) ∧
    ∃ root, (Forest.toRecords
        [Forest.leaf "x" (.text "1"), Forest.leaf "x" (.text "2")]).toRaw.recordsToForest =
      .ok root ∧
      ¬ root.HasUniqueNames := by
  constructor
  · refine ⟨_, _, rfl, fun h ↦ ?_⟩
    exact absurd (Shape.admits_dictionary.1 h.1) (by decide)
  · refine ⟨_, rfl, fun h ↦ ?_⟩
    exact absurd (Shape.admits_dictionary.1 h.1) (by decide)

end Raw

end KeyTree
