import KeyTree.Document.Import
import KeyTree.Proofs.Json.Reading
import KeyTree.Proofs.Results
import KeyTree.Proofs.Tree.Identity

/-!
# Names of imported trees

An imported tree has a node for every entry of the document, so its names are different where the
keys give different names. They do in every document that is read from a text.
-/

namespace KeyTree

namespace Raw

/-- The names that entries give to their nodes. -/
def keyNames (entries : List (Key × Raw)) : List String := entries.map fun entry ↦ entry.1.name

mutual

/-- The keys of every dictionary in a raw value give different names. -/
def HasUniqueNames : Raw → Prop
  | .list items => ItemsHaveUniqueNames items
  | .dictionary entries => (keyNames entries).Nodup ∧ EntriesHaveUniqueNames entries
  | _ => True

def ItemsHaveUniqueNames : List Raw → Prop
  | [] => True
  | item :: rest => item.HasUniqueNames ∧ ItemsHaveUniqueNames rest

def EntriesHaveUniqueNames : List (Key × Raw) → Prop
  | [] => True
  | (_, value) :: rest => value.HasUniqueNames ∧ EntriesHaveUniqueNames rest

end

/-! ## Nodes of values -/

/-- Names by position are different. -/
theorem nodup_positionNames (index count : Nat) :
    ((List.range' index count).map Forest.positionName).Nodup := by
  apply List.Nodup.map _ List.nodup_range'
  intro i j h
  exact Text.toString_nat_injective h

theorem leaf_spec {name : String} {leaf : Except ImportFault Leaf} {n : Node}
    (h : (leaf.map fun value ↦ (⟨"", name, .leaf value⟩ : Node)) = .ok n) :
    n.name = name ∧ n.payload.HasUniqueNames := by
  obtain ⟨value, -, rfl⟩ := exists_of_map_eq_ok h
  exact ⟨rfl, .leaf value⟩

mutual

theorem toNode_spec {room : Nat} {arrays : Shape} {name : String} {n : Node} (raw : Raw)
    (h : toNode room arrays name raw = .ok n) :
    n.name = name ∧ (n.payload.HasUniqueNames ↔ raw.HasUniqueNames) := by
  match raw with
  | .dictionary entries =>
    rw [toNode] at h
    split at h
    · cases h
    · obtain ⟨nodes, hentries, h⟩ := exists_of_bind_eq_ok h
      obtain ⟨hnames, hbelow⟩ := entriesToNodes_spec entries hentries
      obtain rfl := Except.ok.inj h
      refine ⟨rfl, ?_⟩
      rw [Payload.hasUniqueNames_branch, HasUniqueNames, ← hnames, ← hbelow]
      exact and_congr_left fun _ ↦ Shape.admits_dictionary
  | .list items =>
    rw [toNode] at h
    split at h
    · cases h
    · obtain ⟨nodes, hitems, h⟩ := exists_of_bind_eq_ok h
      obtain ⟨hnames, hbelow⟩ := itemsToNodes_spec items hitems
      obtain rfl := Except.ok.inj h
      refine ⟨rfl, ?_⟩
      have hadmits : arrays.Admits nodes := by
        intro _
        rw [hnames]
        exact nodup_positionNames 0 items.length
      rw [Payload.hasUniqueNames_branch, HasUniqueNames, ← hbelow]
      exact and_iff_right hadmits
  | .null | .boolean _ | .integer _ | .number _ | .text _ | .node _ =>
    simp only [toNode] at h
    obtain ⟨hname, hpayload⟩ := leaf_spec h
    exact ⟨hname, iff_of_true hpayload trivial⟩

theorem entriesToNodes_spec {room : Nat} {nodes : List Node} (entries : List (Key × Raw))
    (h : entriesToNodes room entries = .ok nodes) :
    Forest.names nodes = keyNames entries ∧
      ((∀ n ∈ nodes, n.payload.HasUniqueNames) ↔ EntriesHaveUniqueNames entries) := by
  match entries with
  | [] =>
    rw [entriesToNodes] at h
    obtain rfl := Except.ok.inj h
    refine ⟨rfl, ?_⟩
    rw [EntriesHaveUniqueNames]
    exact iff_of_true (fun n hn ↦ by cases hn) trivial
  | (key, value) :: rest =>
    rw [entriesToNodes] at h
    obtain ⟨n, hnode, h⟩ := exists_of_bind_eq_ok h
    obtain ⟨nodes, hrest, h⟩ := exists_of_bind_eq_ok h
    obtain rfl := Except.ok.inj h
    obtain ⟨hname, hpayload⟩ := toNode_spec value hnode
    obtain ⟨hnames, hbelow⟩ := entriesToNodes_spec rest hrest
    constructor
    · rw [Forest.names_cons, hname, hnames]
      rfl
    · rw [List.forall_mem_cons, EntriesHaveUniqueNames, hpayload, hbelow]

theorem itemsToNodes_spec {room index : Nat} {nodes : List Node} (items : List Raw)
    (h : itemsToNodes room index items = .ok nodes) :
    Forest.names nodes = (List.range' index items.length).map Forest.positionName ∧
      ((∀ n ∈ nodes, n.payload.HasUniqueNames) ↔ ItemsHaveUniqueNames items) := by
  match items with
  | [] =>
    rw [itemsToNodes] at h
    obtain rfl := Except.ok.inj h
    refine ⟨rfl, ?_⟩
    rw [ItemsHaveUniqueNames]
    exact iff_of_true (fun n hn ↦ by cases hn) trivial
  | item :: rest =>
    rw [itemsToNodes] at h
    obtain ⟨n, hnode, h⟩ := exists_of_bind_eq_ok h
    obtain ⟨nodes, hrest, h⟩ := exists_of_bind_eq_ok h
    obtain rfl := Except.ok.inj h
    obtain ⟨hname, hpayload⟩ := toNode_spec item hnode
    obtain ⟨hnames, hbelow⟩ := itemsToNodes_spec rest hrest
    constructor
    · rw [Forest.names_cons, hname, hnames]
      rfl
    · rw [List.forall_mem_cons, ItemsHaveUniqueNames, hpayload, hbelow]

end

/-- An imported tree has different names just where the keys of the document give them. -/
theorem hasUniqueNames_toForest_iff {document : Raw} {root : Forest}
    (h : document.toForest = .ok root) : root.HasUniqueNames ↔ document.HasUniqueNames := by
  unfold toForest at h
  split at h
  case h_1 entries =>
    obtain ⟨hnames, hbelow⟩ := entriesToNodes_spec entries h
    rw [Forest.HasUniqueNames, Forest.HasUniqueNamesAs, HasUniqueNames, ← hnames, ← hbelow]
    exact and_congr_left fun _ ↦ Shape.admits_dictionary
  case h_2 => cases h

end Raw

/-- An imported tree has new identities only. -/
theorem Forest.ofDocument_spec {supply supply' : Supply} {document : Raw} {root : Forest}
    (h : ofDocument supply document = .ok (root, supply')) :
    (root.HasUniqueNames ↔ document.HasUniqueNames) ∧
      ∃ count, ids root = supply.issued count ∧ supply' = supply.skip count := by
  obtain ⟨nodes, hforest, hlabel⟩ := exists_of_map_eq_ok h
  obtain ⟨rfl, rfl⟩ := Prod.mk.inj hlabel
  obtain ⟨hids, hsupply, -⟩ := Supply.labelAll_spec supply nodes
  constructor
  · rw [Supply.hasUniqueNames_labelAll, Raw.hasUniqueNames_toForest_iff hforest]
  · exact ⟨_, hids, hsupply⟩

/-! ## Documents that are read -/

namespace Json

theorem keyNames_membersToRaw (members : List (String × Json)) :
    Raw.keyNames (membersToRaw members) = Ordered.keys members := by
  induction members with
  | nil => rfl
  | cons member members ih =>
    obtain ⟨key, value⟩ := member
    rw [membersToRaw, Raw.keyNames, List.map_cons, ← Raw.keyNames, ih]
    rfl

theorem itemsHaveUniqueNames {items : List Json}
    (h : ∀ item ∈ items, item.toRaw.HasUniqueNames) :
    Raw.ItemsHaveUniqueNames (itemsToRaw items) := by
  induction items with
  | nil => trivial
  | cons item items ih =>
    rw [List.forall_mem_cons] at h
    exact ⟨h.1, ih h.2⟩

theorem entriesHaveUniqueNames {members : List (String × Json)}
    (h : ∀ member ∈ members, member.2.toRaw.HasUniqueNames) :
    Raw.EntriesHaveUniqueNames (membersToRaw members) := by
  induction members with
  | nil => trivial
  | cons member members ih =>
    obtain ⟨key, value⟩ := member
    rw [List.forall_mem_cons] at h
    exact ⟨h.1, ih h.2⟩

theorem isInductive_hasUniqueNames : IsInductive fun j ↦ j.toRaw.HasUniqueNames where
  null := trivial
  boolean _ := trivial
  integer _ := trivial
  number _ := trivial
  string _ := trivial
  array h := itemsHaveUniqueNames h
  object hkeys h := ⟨by rw [keyNames_membersToRaw]; exact hkeys, entriesHaveUniqueNames h⟩

end Json

/-- A tree imported from a text has different names, and new identities only. -/
theorem Forest.ofSource_spec {supply supply' : Supply} {source : Json.Source} {root : Forest}
    (h : ofSource supply source = .ok (root, supply')) :
    root.HasUniqueNames ∧ ∃ count, ids root = supply.issued count ∧
      supply' = supply.skip count := by
  obtain ⟨document, hread, hdocument⟩ := exists_of_bind_eq_ok h
  obtain ⟨hnames, hids⟩ := ofDocument_spec hdocument
  refine ⟨hnames.2 ?_, hids⟩
  exact Json.holds_of_read Json.isInductive_hasUniqueNames (eq_ok_of_mapError hread)

end KeyTree
