import KeyTree.Document.Record
import KeyTree.Proofs.Json.RoundTrip
import KeyTree.Proofs.Number.Integers
import KeyTree.Proofs.Results
import KeyTree.Proofs.Tree.Names

/-!
# Trees read back from their records

The records of a tree give the tree back, with all its identities, names, values and kinds, if the
names are different in every dictionary. Only a negative zero is read as zero. The text of the
records gives the records back, so it gives the tree back too.
-/

namespace KeyTree

/-! ## Trees of records -/

/-- The leaf with zero in place of a negative zero. -/
def Leaf.withoutNegativeZero : Leaf → Leaf
  | .number value => .number (Quanta.withoutNegativeZero value)
  | leaf => leaf

mutual

/-- The node with other leaves in the same places. -/
def Node.mapLeaves (f : Leaf → Leaf) : Node → Node
  | ⟨id, name, .leaf value⟩ => ⟨id, name, .leaf (f value)⟩
  | ⟨id, name, .branch shape children⟩ => ⟨id, name, .branch shape (Forest.mapLeaves f children)⟩

def Forest.mapLeaves (f : Leaf → Leaf) : List Node → List Node
  | [] => []
  | n :: ns => n.mapLeaves f :: Forest.mapLeaves f ns

end

theorem Node.name_mapLeaves (f : Leaf → Leaf) (n : Node) : (n.mapLeaves f).name = n.name := by
  obtain ⟨id, name, payload⟩ := n
  cases payload <;> rfl

theorem Forest.names_mapLeaves (f : Leaf → Leaf) (nodes : List Node) :
    names (mapLeaves f nodes) = names nodes := by
  induction nodes with
  | nil => rfl
  | cons n nodes ih => rw [mapLeaves, names_cons, names_cons, Node.name_mapLeaves, ih]

/-! ## Values of leaves -/

theorem Quanta.withoutNegativeZero_of_integer?_none {x : Float} (h : integer? x = none) :
    withoutNegativeZero x = x := by
  apply if_neg
  intro hzero
  have hwhole : magnitudeBits x < infinityBits ∧ ofFloat x % one = 0 := by
    have hnone : ofBits 0 = 0 := rfl
    rw [ofFloat, hzero, hnone]
    exact ⟨Nat.mul_pos (Nat.succ_pos _) (Nat.pow_pos Nat.two_pos), Nat.zero_mod one⟩
  rw [integer?, if_pos hwhole] at h
  cases h

theorem Quanta.integer?_of_not_isFinite {x : Float} (h : ¬ x.isFinite = true) :
    integer? x = none := by
  rw [isFinite_iff] at h
  exact if_neg fun hwhole ↦ h hwhole.1

theorem Kind.coerce_number {raw : Raw} {x : Float} (h : Coercion.number? raw = some x) :
    Kind.number.coerce raw = .ok (.leaf (.number x)) := by
  unfold Kind.coerce
  simp only [h]

theorem Number.coerce_toJson {x : Float} (h : x.isFinite = true) :
    Kind.number.coerce (Number.toJson x).toRaw =
      .ok (.leaf (.number (Quanta.withoutNegativeZero x))) := by
  apply Kind.coerce_number
  unfold Number.toJson
  cases hwhole : Quanta.integer? x with
  | none =>
    dsimp only
    rw [if_pos h, Quanta.withoutNegativeZero_of_integer?_none hwhole]
    rfl
  | some i => exact Quanta.ofInt?_of_integer? hwhole

/-- The value of a leaf in a record becomes the leaf. -/
theorem Leaf.coerce_toRecordValue (leaf : Leaf) :
    leaf.kind.coerce leaf.toRecordValue.toRaw = .ok (.leaf leaf.withoutNegativeZero) := by
  cases leaf with
  | text value => rfl
  | boolean value => rfl
  | expression formula => rfl
  | number x =>
    unfold Leaf.toRecordValue Leaf.withoutNegativeZero Leaf.kind
    dsimp only
    by_cases hfinite : x.isFinite = true
    · rw [if_pos hfinite]
      exact Number.coerce_toJson hfinite
    · rw [if_neg hfinite]
      apply Kind.coerce_number
      rw [Quanta.withoutNegativeZero_of_integer?_none (Quanta.integer?_of_not_isFinite hfinite)]
      rfl

/-! ## Nodes of records -/

namespace Raw

/-- The payload that the fields of a record give to a node of a kind. -/
def Fields.payload (room : Nat) (fields : Fields) (kind : Kind) :
    Except RecordFault (Payload Node) :=
  match kind.shape? with
  | some shape => match fields.value with
    | list items => (items.mapM (recordToNode room)).map (Coercion.branch shape)
    | _ => .error (.noChildList fields.name)
  | none => (kind.coerce fields.value).mapError .badValue

theorem recordToNode_eq {room : Nat} {record : Raw} {fields : Fields} {kind : Kind}
    (hfields : record.fields? = some fields) (hkind : fields.type.kind? = some kind) :
    recordToNode (room + 1) record =
      (fields.payload room kind).map fun payload ↦
        ⟨fields.id.plain, fields.name.plain, payload⟩ := by
  rw [recordToNode, hfields]
  simp only [hkind, Fields.payload]
  cases kind.shape? with
  | none => cases kind.coerce fields.value <;> rfl
  | some shape =>
    cases fields.value with
    | list items =>
      dsimp only
      cases items.mapM (recordToNode room) <;> rfl
    | _ => rfl

/-! ## Writing and reading -/

theorem fields?_recordWith (n : Node) (value : Json) :
    (n.recordWith value).toRaw.fields? =
      some ⟨.text n.id, .text n.name, .text n.kind.name, value.toRaw⟩ := rfl

theorem kind?_name (kind : Kind) : (Raw.text kind.name).kind? = some kind := by
  cases kind <;> rfl

theorem shape?_kind_leaf (leaf : Leaf) : leaf.kind.shape? = none := by
  cases leaf <;> rfl

theorem shape?_kind (shape : Shape) : shape.kind.shape? = some shape := by
  cases shape <;> rfl

theorem branch_eq {shape : Shape} {children : Forest} (h : shape.Admits children) :
    Coercion.branch shape children = .branch shape children := by
  cases shape with
  | dictionary => rw [Coercion.branch, Forest.collapse_eq_self (Shape.admits_dictionary.1 h)]
  | list => rfl

mutual

/-- The record of a node gives the node back. -/
theorem recordToNode_toRecord {room : Nat} (n : Node) (hnames : n.payload.HasUniqueNames)
    (hroom : n.height ≤ room) :
    recordToNode room n.toRecord.toRaw = .ok (n.mapLeaves Leaf.withoutNegativeZero) := by
  match n with
  | ⟨id, name, .leaf value⟩ =>
    obtain ⟨room, rfl⟩ := Nat.exists_eq_succ_of_ne_zero (Nat.pos_iff_ne_zero.1 hroom)
    rw [Node.toRecord, recordToNode_eq (fields?_recordWith ⟨id, name, .leaf value⟩ _)
      (kind?_name value.kind), Fields.payload, shape?_kind_leaf]
    dsimp only
    rw [Leaf.coerce_toRecordValue]
    rfl
  | ⟨id, name, .branch shape children⟩ =>
    rw [Node.height] at hroom
    have hpos : 0 < room := by omega
    obtain ⟨room, rfl⟩ := Nat.exists_eq_succ_of_ne_zero (Nat.pos_iff_ne_zero.1 hpos)
    rw [Payload.hasUniqueNames_branch] at hnames
    have hheight : Forest.height children ≤ room := by omega
    have hchildren := mapM_recordToNode children hnames.2 hheight
    have hadmits : shape.Admits (Forest.mapLeaves Leaf.withoutNegativeZero children) :=
      (Shape.admits_congr (Forest.names_mapLeaves _ children)).2 hnames.1
    rw [Node.toRecord, recordToNode_eq (fields?_recordWith ⟨id, name, .branch shape children⟩ _)
      (kind?_name shape.kind), Fields.payload, shape?_kind]
    simp only [Json.toRaw]
    rw [hchildren]
    change (.ok ⟨id, name, Coercion.branch shape _⟩ : Except RecordFault Node) = _
    rw [branch_eq hadmits]
    rfl

theorem mapM_recordToNode {room : Nat} (nodes : List Node)
    (hnames : ∀ n ∈ nodes, n.payload.HasUniqueNames) (hroom : Forest.height nodes ≤ room) :
    (Json.itemsToRaw (Forest.recordItems nodes)).mapM (recordToNode room) =
      .ok (Forest.mapLeaves Leaf.withoutNegativeZero nodes) := by
  match nodes with
  | [] => rfl
  | n :: nodes =>
    rw [Forest.height] at hroom
    rw [List.forall_mem_cons] at hnames
    rw [Forest.recordItems, Json.itemsToRaw, List.mapM_cons,
      recordToNode_toRecord n hnames.1 (by omega), mapM_recordToNode nodes hnames.2 (by omega)]
    rfl

end

/-- The records of a tree give the tree back. -/
theorem recordsToForest_toRecords {root : Forest} (hnames : ∀ n ∈ root, n.payload.HasUniqueNames)
    (hheight : Forest.height root ≤ decodingLimit) :
    root.toRecords.toRaw.recordsToForest =
      .ok (Forest.mapLeaves Leaf.withoutNegativeZero root) :=
  mapM_recordToNode root hnames hheight

end Raw

/-! ## The text of records -/

namespace Json

theorem isReadable_toJson {x : Float} (room : Nat) : (Number.toJson x).IsReadable room := by
  unfold Number.toJson
  cases hwhole : Quanta.integer? x with
  | none =>
    dsimp only
    split <;> trivial
  | some i =>
    rw [IsReadable]
    exact Quanta.natAbs_lt_of_integer? hwhole

theorem isReadable_toRecordValue (leaf : Leaf) (room : Nat) :
    leaf.toRecordValue.IsReadable room := by
  cases leaf with
  | number x =>
    unfold Leaf.toRecordValue
    dsimp only
    split
    · exact isReadable_toJson room
    · trivial
  | _ => trivial

theorem isReadable_recordWith (n : Node) {value : Json} {room : Nat} (hroom : 0 < room)
    (hvalue : value.IsReadable (room - 1)) : (n.recordWith value).IsReadable room := by
  rw [Node.recordWith, IsReadable]
  exact ⟨hroom, by simp [Ordered.keys], trivial, trivial, trivial, hvalue, trivial⟩

mutual

theorem isReadable_toRecord {room : Nat} (n : Node) (hroom : 2 * n.height ≤ room) :
    n.toRecord.IsReadable room := by
  match n with
  | ⟨id, name, .leaf value⟩ =>
    rw [Node.height] at hroom
    exact isReadable_recordWith _ (by omega) (isReadable_toRecordValue value _)
  | ⟨id, name, .branch shape children⟩ =>
    rw [Node.height] at hroom
    apply isReadable_recordWith _ (by omega)
    rw [IsReadable]
    exact ⟨by omega, itemsReadable_recordItems children (by omega)⟩

theorem itemsReadable_recordItems {room : Nat} (nodes : List Node)
    (hroom : 2 * Forest.height nodes ≤ room) :
    ItemsReadable room (Forest.recordItems nodes) := by
  match nodes with
  | [] => trivial
  | n :: nodes =>
    rw [Forest.height] at hroom
    exact ⟨isReadable_toRecord n (by omega), itemsReadable_recordItems nodes (by omega)⟩

end

end Json

namespace Forest

/--
Whether a tree is so low that its records can be read: it becomes a tree, and its text, in which
every level takes an object and an array, becomes records.
-/
def IsStorable (root : Forest) : Prop :=
  height root ≤ decodingLimit ∧ 2 * height root < callLimit

theorem isReadable_toRecords {root : Forest} (h : root.IsStorable) :
    root.toRecords.IsReadable callLimit := by
  have hheight := h.2
  rw [toRecords, Json.IsReadable]
  exact ⟨by decide, Json.itemsReadable_recordItems root (by omega)⟩

/-- The text of records starts with two marks. -/
theorem exists_recordText (root : Forest) :
    ∃ c rest, (c = ']' ∨ c = '{') ∧ root.recordText.toList = '[' :: c :: rest := by
  unfold recordText Json.text
  rw [String.toList_ofList]
  cases root with
  | nil => exact ⟨']', [], .inl rfl, rfl⟩
  | cons n nodes =>
    obtain ⟨id, name, payload⟩ := n
    cases payload with
    | leaf value => exact ⟨'{', _, .inr rfl, rfl⟩
    | branch shape children => exact ⟨'{', _, .inr rfl, rfl⟩

/-- The bytes of a document's text are read as the text, if it starts with two marks. -/
theorem read_bytes_text {document : Json} {c : Char} {rest : List Char} (hc : c = ']' ∨ c = '{')
    (htext : (document.text (.line false)).toList = '[' :: c :: rest) :
    (Json.Source.bytes (Text.toUtf8 (document.text (.line false)).toList)).read =
      Json.readChars (Json.write (.line false) 0 document) := by
  have hdecode : Text.decode (Text.toUtf8 (document.text (.line false)).toList) =
      .ok (document.text (.line false)).toList := by
    rw [htext]
    apply Text.decode_toUtf8 rest (by decide)
    rcases hc with rfl | rfl <;> decide
  simp only [Json.Source.read, hdecode]
  rw [Json.text, String.toList_ofList]
  rfl

/-- The bytes of the text of a tree's records are read as the records. -/
theorem read_bytes_recordText (root : Forest) :
    (Json.Source.bytes (Text.toUtf8 root.recordText.toList)).read =
      Json.readChars (Json.write (.line false) 0 root.toRecords) := by
  obtain ⟨c, rest, hc, htext⟩ := exists_recordText root
  exact read_bytes_text hc htext

/-- The bytes of the text of a tree's records give the tree back. -/
theorem ofRecordSource_recordText {root : Forest} (hnames : ∀ n ∈ root, n.payload.HasUniqueNames)
    (h : root.IsStorable) :
    ofRecordSource (.bytes (Text.toUtf8 root.recordText.toList)) =
      .ok (mapLeaves Leaf.withoutNegativeZero root) := by
  unfold ofRecordSource
  rw [read_bytes_recordText,
    Json.readChars_write (Json.Style.isStandard_line false) (isReadable_toRecords h)]
  exact Raw.recordsToForest_toRecords hnames h.1

end Forest

end KeyTree
