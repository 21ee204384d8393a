import KeyTree.Proofs.Document.Names
import KeyTree.Proofs.Number.Nearest

/-!
# What a file of records has to hold

The content of a file becomes a tree if and only if it is a document that is a list of records, at
every level and not too deep: objects with the four fields, of a known kind, with records in each
container and a number in each number. Everything else is refused for a reason, and a slot with such
content gives the fallback.
-/

namespace KeyTree

namespace Raw

/-! ## Records -/

/-- The raw values that are numbers or can be turned into one: a truth value is one or zero, and a
text is the number that it spells. -/
def IsNumeric : Raw → Prop
  | boolean _ | number _ => True
  | integer value => ¬ Quanta.OutOfRange value
  | text value => (Number.read? value).isSome
  | null | list _ | dictionary _ | node _ => False

/-- An object that has the four fields. It may have others. -/
def HasFields (record : Raw) (fields : Fields) : Prop :=
  ∃ entries, record = dictionary entries ∧
    Ordered.get? (.text "id") entries = some fields.id ∧
    Ordered.get? (.text "name") entries = some fields.name ∧
    Ordered.get? (.text "type") entries = some fields.type ∧
    Ordered.get? (.text "value") entries = some fields.value

/-- A record of a node whose records nest no deeper than a number of levels. The value of a number may
be left open. -/
inductive IsRecord : Nat → Raw → Prop
  | leaf {room : Nat} {record : Raw} {fields : Fields} {kind : Kind}
      (hfields : record.HasFields fields) (htype : fields.type = text kind.name)
      (hkind : kind.shape? = none)
      (hvalue : kind = .number → fields.value = null ∨ fields.value.IsNumeric) :
      IsRecord (room + 1) record
  | branch {room : Nat} {record : Raw} {fields : Fields} {shape : Shape} {records : List Raw}
      (hfields : record.HasFields fields) (htype : fields.type = text shape.kind.name)
      (hvalue : fields.value = list records)
      (hrecords : ∀ child ∈ records, IsRecord room child) :
      IsRecord (room + 1) record

/-- Why a value is no record of so many levels: what is wrong with it, or with a record in it. -/
inductive Flaw : Nat → Raw → RecordFault → Prop
  | tooDeep (record : Raw) : Flaw 0 record .tooDeep
  | malformed {room : Nat} {record : Raw} (h : ∀ fields, ¬ record.HasFields fields) :
      Flaw (room + 1) record (.malformed record)
  | unknownType {room : Nat} {record : Raw} {fields : Fields} (hfields : record.HasFields fields)
      (h : ∀ kind : Kind, fields.type ≠ text kind.name) :
      Flaw (room + 1) record (.unknownType fields.type)
  | noChildList {room : Nat} {record : Raw} {fields : Fields} {shape : Shape}
      (hfields : record.HasFields fields) (htype : fields.type = text shape.kind.name)
      (h : ∀ records, fields.value ≠ list records) :
      Flaw (room + 1) record (.noChildList fields.name)
  | notNumber {room : Nat} {record : Raw} {fields : Fields} (hfields : record.HasFields fields)
      (htype : fields.type = text Kind.number.name) (hnull : fields.value ≠ null)
      (h : ¬ fields.value.IsNumeric) :
      Flaw (room + 1) record (.badValue (.notNumber fields.value))
  | child {room : Nat} {record child : Raw} {fields : Fields} {shape : Shape} {records : List Raw}
      {fault : RecordFault} (hfields : record.HasFields fields)
      (htype : fields.type = text shape.kind.name) (hvalue : fields.value = list records)
      (hchild : child ∈ records) (h : Flaw room child fault) :
      Flaw (room + 1) record fault

/-! ## Fields and values -/

theorem isSome_number?_iff (raw : Raw) :
    (Coercion.number? raw).isSome ↔ raw = null ∨ raw.IsNumeric := by
  cases raw with
  | integer value =>
    simp [Coercion.number?, IsNumeric, ← Quanta.ofInt?_eq_none_iff, Option.isSome_iff_ne_none]
  | _ => simp [Coercion.number?, IsNumeric]

theorem fields?_eq_some_iff {record : Raw} {fields : Fields} :
    record.fields? = some fields ↔ record.HasFields fields := by
  cases record with
  | dictionary entries =>
    obtain ⟨id, name, type, value⟩ := fields
    simp [fields?, HasFields, Option.bind_eq_some_iff]
  | _ => simp [fields?, HasFields]

theorem kind?_eq_some_iff {type : Raw} {kind : Kind} :
    type.kind? = some kind ↔ type = text kind.name := by
  constructor
  · intro h
    cases type with
    | text name => rw [Kind.name_of_ofName? h]
    | _ => cases h
  · rintro rfl
    exact kind?_name kind

theorem kind_of_shape? {kind : Kind} {shape : Shape} (h : kind.shape? = some shape) :
    kind = shape.kind := by
  cases kind with
  | dictionary | list =>
    obtain rfl := Option.some.inj h
    rfl
  | _ => cases h

/-- Of the kinds without children only numbers refuse a value. -/
theorem exists_coerce_iff {kind : Kind} (hkind : kind.shape? = none) (raw : Raw) :
    (∃ payload, kind.coerce raw = .ok payload) ↔
      (kind = .number → raw = null ∨ raw.IsNumeric) := by
  cases kind with
  | dictionary | list => cases hkind
  | number =>
    rw [← isSome_number?_iff, Kind.coerce]
    cases Coercion.number? raw <;> simp
  | _ => simp [Kind.coerce]

theorem coerce_eq_error {kind : Kind} (hkind : kind.shape? = none) {raw : Raw} {fault : EditFault}
    (h : kind.coerce raw = .error fault) :
    kind = .number ∧ raw ≠ null ∧ ¬ raw.IsNumeric ∧ fault = .notNumber raw := by
  have hnone : ¬ ∃ payload, kind.coerce raw = .ok payload := by
    rw [h]
    exact fun ⟨_, hpayload⟩ ↦ by cases hpayload
  rw [exists_coerce_iff hkind, Classical.not_imp, not_or] at hnone
  obtain ⟨rfl, hnull, hraw⟩ := hnone
  refine ⟨rfl, hnull, hraw, ?_⟩
  rw [Kind.coerce] at h
  split at h
  · cases h
  · exact (Except.error.inj h).symm

/-! ## Reading records -/

theorem HasFields.unique {record : Raw} {fields fields' : Fields} (h : record.HasFields fields)
    (h' : record.HasFields fields') : fields = fields' := by
  rw [← fields?_eq_some_iff] at h h'
  exact Option.some.inj (h.symm.trans h')

theorem kind_unique {kind kind' : Kind} (h : text kind.name = text kind'.name) : kind = kind' := by
  rw [← kind?_eq_some_iff, kind?_name] at h
  exact Option.some.inj h

theorem isRecord_leaf_iff {room : Nat} {record : Raw} {fields : Fields} {kind : Kind}
    (hfields : record.HasFields fields) (htype : fields.type = text kind.name)
    (hkind : kind.shape? = none) :
    record.IsRecord (room + 1) ↔
      (kind = .number → fields.value = null ∨ fields.value.IsNumeric) := by
  constructor
  · rintro (⟨hfields', htype', _, hvalue⟩ | ⟨hfields', htype', _, _⟩)
    · obtain rfl := hfields.unique hfields'
      obtain rfl := kind_unique (htype.symm.trans htype')
      exact hvalue
    · obtain rfl := hfields.unique hfields'
      obtain rfl := kind_unique (htype.symm.trans htype')
      simp [shape?_kind] at hkind
  · exact .leaf hfields htype hkind

theorem isRecord_branch_iff {room : Nat} {record : Raw} {fields : Fields} {shape : Shape}
    (hfields : record.HasFields fields) (htype : fields.type = text shape.kind.name) :
    record.IsRecord (room + 1) ↔
      ∃ records, fields.value = list records ∧ ∀ child ∈ records, child.IsRecord room := by
  constructor
  · rintro (⟨hfields', htype', hkind, _⟩ | ⟨hfields', _, hvalue, hrecords⟩)
    · obtain rfl := hfields.unique hfields'
      obtain rfl := kind_unique (htype.symm.trans htype')
      simp [shape?_kind] at hkind
    · obtain rfl := hfields.unique hfields'
      exact ⟨_, hvalue, hrecords⟩
  · rintro ⟨records, hvalue, hrecords⟩
    exact .branch hfields htype hvalue hrecords

/-- What is wrong with a value keeps it from being a record. -/
theorem Flaw.not_isRecord {room : Nat} {record : Raw} {fault : RecordFault}
    (h : record.Flaw room fault) : ¬ record.IsRecord room := by
  induction h with
  | tooDeep record => rintro ⟨⟩
  | malformed hnone => rintro (⟨hfields, _, _, _⟩ | ⟨hfields, _, _, _⟩) <;> exact hnone _ hfields
  | unknownType hfields hnone =>
    rintro (⟨hfields', htype, _, _⟩ | ⟨hfields', htype, _, _⟩) <;>
      exact hnone _ (hfields.unique hfields' ▸ htype)
  | noChildList hfields htype hnone =>
    rw [isRecord_branch_iff hfields htype]
    rintro ⟨records, hvalue, -⟩
    exact hnone records hvalue
  | notNumber hfields htype hnull hvalue =>
    rw [isRecord_leaf_iff hfields htype rfl]
    exact fun h ↦ (h rfl).elim hnull hvalue
  | child hfields htype hvalue hchild _ ih =>
    rw [isRecord_branch_iff hfields htype]
    rintro ⟨records, hvalue', hrecords⟩
    obtain rfl := list.inj (hvalue.symm.trans hvalue')
    exact ih (hrecords _ hchild)

section Payload

variable {room : Nat} {record : Raw} {fields : Fields}

/-- A value without children is refused only if it is to be a number. -/
theorem decides_payload_leaf {kind : Kind} (hfields : record.HasFields fields)
    (htype : fields.type = text kind.name) (hkind : kind.shape? = none) :
    Decides (record.IsRecord (room + 1)) (record.Flaw (room + 1)) (fields.payload room kind) := by
  simp only [Fields.payload, hkind]
  cases hvalue : kind.coerce fields.value with
  | ok payload =>
    have hnumeric := (exists_coerce_iff hkind fields.value).1 ⟨payload, hvalue⟩
    exact .ok payload (.leaf hfields htype hkind hnumeric)
  | error fault =>
    obtain ⟨rfl, hnull, hnumeric, rfl⟩ := coerce_eq_error hkind hvalue
    exact .error (.notNumber hfields htype hnull hnumeric)

/-- A container is refused without a list, or with a list in which something is no record. -/
theorem decides_payload_branch {shape : Shape} (hfields : record.HasFields fields)
    (htype : fields.type = text shape.kind.name)
    (hchildren : ∀ child, Decides (child.IsRecord room) (child.Flaw room)
      (recordToNode room child)) :
    Decides (record.IsRecord (room + 1)) (record.Flaw (room + 1))
      (fields.payload room shape.kind) := by
  simp only [Fields.payload, shape?_kind]
  split
  case h_1 records hvalue =>
    refine ((decides_mapM hchildren records).imp ?_ ?_).map _
    · exact .branch hfields htype hvalue
    · rintro fault ⟨child, hchild, hflaw⟩
      exact .child hfields htype hvalue hchild hflaw
  case h_2 hvalue => exact .error (.noChildList hfields htype hvalue)

end Payload

/-- A record becomes a node, and any other value is refused for what is wrong with it. -/
theorem decides_recordToNode (room : Nat) (record : Raw) :
    Decides (record.IsRecord room) (record.Flaw room) (recordToNode room record) := by
  induction room generalizing record with
  | zero =>
    rw [recordToNode]
    exact .error (.tooDeep record)
  | succ room ih =>
    cases hfields : record.fields? with
    | none =>
      simp only [recordToNode, hfields]
      refine .error (.malformed fun fields h ↦ ?_)
      simp [fields?_eq_some_iff.2 h] at hfields
    | some fields =>
      have hhas := fields?_eq_some_iff.1 hfields
      cases hkind : fields.type.kind? with
      | none =>
        simp only [recordToNode, hfields, hkind]
        refine .error (.unknownType hhas fun kind h ↦ ?_)
        simp [kind?_eq_some_iff.2 h] at hkind
      | some kind =>
        have htype := kind?_eq_some_iff.1 hkind
        rw [recordToNode_eq hfields hkind]
        apply Decides.map
        cases hshape : kind.shape? with
        | none => exact decides_payload_leaf hhas htype hshape
        | some shape =>
          obtain rfl := kind_of_shape? hshape
          exact decides_payload_branch hhas htype ih

end Raw

/-! ## Reading a file -/

open Raw

/-- The bytes of a document that is a list of records. -/
def HoldsRecords (content : List UInt8) : Prop :=
  ∃ document records, (Json.Source.bytes content).read = .ok document ∧
    document.toRaw = .list records ∧ ∀ record ∈ records, record.IsRecord decodingLimit

/-- Why bytes are no such document. -/
inductive ContentFlaw (content : List UInt8) : RecordFault → Prop
  | unreadable {fault : Json.ReadFault} (h : (Json.Source.bytes content).read = .error fault) :
      ContentFlaw content (.ofRead fault)
  | notList {document : Json} (hread : (Json.Source.bytes content).read = .ok document)
      (h : ∀ records, document.toRaw ≠ .list records) :
      ContentFlaw content (.notList document.toRaw.typeName)
  | record {document : Json} {records : List Raw} {record : Raw} {fault : RecordFault}
      (hread : (Json.Source.bytes content).read = .ok document)
      (hlist : document.toRaw = .list records) (hrecord : record ∈ records)
      (h : record.Flaw decodingLimit fault) :
      ContentFlaw content fault

/-- What is wrong with bytes keeps them from being a list of records. -/
theorem ContentFlaw.not_holdsRecords {content : List UInt8} {fault : RecordFault}
    (h : ContentFlaw content fault) : ¬ HoldsRecords content := by
  rintro ⟨document, records, hread, hlist, hrecords⟩
  cases h with
  | unreadable hread' => simp [hread] at hread'
  | notList hread' hnone =>
    obtain rfl := Except.ok.inj (hread.symm.trans hread')
    exact hnone records hlist
  | record hread' hlist' hrecord hflaw =>
    obtain rfl := Except.ok.inj (hread.symm.trans hread')
    obtain rfl := Raw.list.inj (hlist.symm.trans hlist')
    exact hflaw.not_isRecord (hrecords _ hrecord)

theorem decides_ofRecordSource (content : List UInt8) :
    Decides (HoldsRecords content) (ContentFlaw content)
      (Forest.ofRecordSource (.bytes content)) := by
  unfold Forest.ofRecordSource
  cases hread : (Json.Source.bytes content).read with
  | error fault => exact .error (.unreadable hread)
  | ok document =>
    change Decides _ _ document.toRaw.recordsToForest
    unfold recordsToForest
    split
    case h_1 records hlist =>
      refine (decides_mapM (decides_recordToNode decodingLimit) records).imp ?_ ?_
      · exact fun hrecords ↦ ⟨document, records, hread, hlist, hrecords⟩
      · rintro fault ⟨record, hrecord, hflaw⟩
        exact .record hread hlist hrecord hflaw
    case h_2 hnone => exact .error (.notList hread hnone)

namespace Slot

/--
Whatever bytes a slot holds, something is loaded from it. Bytes of a list of records give their tree,
and only these do. All others are refused for what is wrong with them, and the fallback is loaded.
-/
theorem load_file (content : List UInt8) (supply : Supply) (fallback : Forest) :
    (∃ root, HoldsRecords content ∧ Forest.ofRecordSource (.bytes content) = .ok root ∧
      load supply fallback (file content) = .ok (root, supply)) ∨
    ∃ fault, ¬ HoldsRecords content ∧ ContentFlaw content fault ∧
      Forest.ofRecordSource (.bytes content) = .error fault ∧
      load supply fallback (file content) = .ok (supply.labelAll fallback) := by
  have hdecides := decides_ofRecordSource content
  cases hroot : Forest.ofRecordSource (.bytes content) with
  | ok root =>
    left
    refine ⟨root, hdecides.of_eq_ok hroot, rfl, ?_⟩
    simp [load, read, hroot, Except.mapError]
  | error fault =>
    right
    have hflaw := hdecides.of_eq_error hroot
    refine ⟨fault, hflaw.not_holdsRecords, hflaw, rfl, ?_⟩
    simp [load, read, hroot, Except.mapError]

end Slot

/-- The record of a number whose value is left open. -/
def openNumber : Json :=
  .object [("id", .string "a"), ("name", .string "x"), ("type", .string "number"), ("value", .null)]

/-- A number whose value is left open is zero, though nothing is no number. -/
theorem ofRecordSource_openNumber :
    (∃ fields, openNumber.toRaw.HasFields fields ∧ fields.type = .text Kind.number.name ∧
      ¬ fields.value.IsNumeric) ∧
    Forest.ofRecordSource
        (.bytes (Text.toUtf8 ((Json.array [openNumber]).text (.line false)).toList)) =
      .ok [⟨"a", "x", .leaf (.number 0)⟩] := by
  constructor
  · exact ⟨⟨.text "a", .text "x", .text "number", .null⟩,
      ⟨_, rfl, rfl, rfl, rfl, rfl⟩, rfl, id⟩
  · have hreadable : (Json.array [openNumber]).IsReadable callLimit := by
      simp [openNumber, Json.IsReadable, Json.ItemsReadable, Json.MembersReadable, Ordered.keys,
        callLimit]
    have hread := @Forest.read_bytes_text (.array [openNumber]) _ _ (.inr rfl) rfl
    unfold Forest.ofRecordSource
    rw [hread, Json.readChars_write (Json.Style.isStandard_line false) hreadable]
    rfl

end KeyTree
