import KeyTree.Document.Export
import KeyTree.Proofs.Document.Canonical

/-!
# Trees read back from plain documents

The document of a tree holds no number that is not finite, so it can always be written as standard
JSON. Importing it gives the canonical form of the tree, whatever the indentation of its text, and
exporting and importing once more changes nothing but identities.
-/

namespace KeyTree

/-! ## Documents of trees -/

namespace Json

mutual

/-- All numbers in a value are finite, so that it is standard JSON. -/
def IsStandard : Json → Prop
  | .number x => x.isFinite = true
  | .array items => ItemsStandard items
  | .object members => MembersStandard members
  | _ => True

def ItemsStandard : List Json → Prop
  | [] => True
  | item :: rest => item.IsStandard ∧ ItemsStandard rest

def MembersStandard : List (String × Json) → Prop
  | [] => True
  | (_, value) :: rest => value.IsStandard ∧ MembersStandard rest

end

/-- Whether a value is standard JSON that can be read back. -/
structure IsPortable (room : Nat) (j : Json) : Prop where
  isStandard : j.IsStandard
  isReadable : j.IsReadable room

theorem isPortable_array {room : Nat} {items : List Json} (hroom : 0 < room)
    (h : ∀ item ∈ items, item.IsPortable (room - 1)) : (array items).IsPortable room := by
  suffices ItemsStandard items ∧ ItemsReadable (room - 1) items from
    ⟨this.1, ⟨hroom, this.2⟩⟩
  induction items with
  | nil => exact ⟨trivial, trivial⟩
  | cons item items ih =>
    rw [List.forall_mem_cons] at h
    obtain ⟨hstandard, hreadable⟩ := ih h.2
    exact ⟨⟨h.1.isStandard, hstandard⟩, ⟨h.1.isReadable, hreadable⟩⟩

theorem isPortable_object {room : Nat} {members : List (String × Json)} (hroom : 0 < room)
    (hkeys : (Ordered.keys members).Nodup)
    (h : ∀ member ∈ members, member.2.IsPortable (room - 1)) :
    (object members).IsPortable room := by
  suffices MembersStandard members ∧ MembersReadable (room - 1) members from
    ⟨this.1, ⟨hroom, hkeys, this.2⟩⟩
  clear hkeys
  induction members with
  | nil => exact ⟨trivial, trivial⟩
  | cons member members ih =>
    rw [List.forall_mem_cons] at h
    obtain ⟨hstandard, hreadable⟩ := ih h.2
    exact ⟨⟨h.1.isStandard, hstandard⟩, ⟨h.1.isReadable, hreadable⟩⟩

theorem isPortable_leaf (leaf : Leaf) (room : Nat) : leaf.toJson.IsPortable room := by
  cases leaf with
  | number x =>
    refine ⟨?_, isReadable_toJson room⟩
    unfold Leaf.toJson Number.toJson
    dsimp only
    split
    · trivial
    · split
      case isTrue hfinite => exact hfinite
      case isFalse => trivial
  | _ => exact ⟨trivial, trivial⟩

end Json

namespace Forest

theorem members_eq_map (nodes : List Node) :
    members nodes = nodes.map fun n ↦ (n.name, n.toJson) := by
  induction nodes with
  | nil => rfl
  | cons n nodes ih => rw [members, List.map_cons, ih]

/-- The object of siblings has a member for each of the collapsed ones. -/
theorem ofList_members (nodes : List Node) :
    Ordered.ofList (members nodes) = (collapse nodes).map fun n ↦ (n.name, n.toJson) := by
  rw [members_eq_map, ofList_named]

end Forest

theorem Forest.isPortable_ofList_members {room : Nat} {nodes : List Node} (hroom : 0 < room)
    (h : ∀ n ∈ nodes, n.toJson.IsPortable (room - 1)) :
    (Json.object (Ordered.ofList (Forest.members nodes))).IsPortable room := by
  apply Json.isPortable_object hroom (Ordered.nodup_keys_ofList _)
  rw [Forest.ofList_members]
  intro member hmember
  obtain ⟨n, hn, rfl⟩ := List.mem_map.mp hmember
  exact h n (Forest.mem_of_mem_collapse hn)

mutual

/-- The document of a node is standard JSON, and can be read back if the node is low. -/
theorem Node.isPortable_toJson {room : Nat} (n : Node) (hroom : n.height ≤ room) :
    n.toJson.IsPortable room := by
  match n with
  | ⟨_, _, .leaf value⟩ => exact Json.isPortable_leaf value room
  | ⟨_, _, .branch .dictionary children⟩ =>
    rw [Node.height] at hroom
    exact Forest.isPortable_ofList_members (by omega)
      (Forest.forall_isPortable children (by omega)).1
  | ⟨_, _, .branch .list children⟩ =>
    rw [Node.height] at hroom
    exact Json.isPortable_array (by omega) (Forest.forall_isPortable children (by omega)).2

theorem Forest.forall_isPortable {room : Nat} (nodes : List Node)
    (hroom : Forest.height nodes ≤ room) :
    (∀ n ∈ nodes, n.toJson.IsPortable room) ∧
      ∀ item ∈ Forest.items nodes, item.IsPortable room := by
  match nodes with
  | [] =>
    rw [Forest.items]
    exact ⟨List.forall_mem_nil _, List.forall_mem_nil _⟩
  | n :: nodes =>
    rw [Forest.height, Nat.max_le] at hroom
    obtain ⟨hnodes, hitems⟩ := Forest.forall_isPortable nodes hroom.2
    have hn := Node.isPortable_toJson n hroom.1
    rw [Forest.items, List.forall_mem_cons, List.forall_mem_cons]
    exact ⟨⟨hn, hnodes⟩, ⟨hn, hitems⟩⟩

end

/-! ## Importing documents of trees -/

namespace Raw

theorem toLeaf_of_eq_integer {raw : Raw} {i : Int} {x : Float} (name : String)
    (hraw : raw = integer i) (hx : Quanta.ofInt? i = some x) :
    raw.toLeaf name = .ok (.number x) := by
  unfold toLeaf
  -- The rounding is a computation on powers of two, which no step may unfold.
  obtain ⟨round, hround⟩ : ∃ round, round = Quanta.ofInt? := ⟨_, rfl⟩
  rw [← hround] at hx ⊢
  subst hraw
  dsimp only
  rw [hx]

theorem toLeaf_number_toJson (name : String) (x : Float) :
    (Number.toJson x).toRaw.toLeaf name = .ok (Leaf.number x).canonical := by
  unfold Leaf.canonical
  dsimp only
  by_cases hfinite : x.isFinite = true
  · rw [if_pos hfinite]
    cases hwhole : Quanta.integer? x with
    | some i =>
      rw [Number.toJson, hwhole]
      exact toLeaf_of_eq_integer name rfl (Quanta.ofInt?_of_integer? hwhole)
    | none =>
      rw [Quanta.withoutNegativeZero_of_integer?_none hwhole, Number.toJson, hwhole]
      dsimp only
      rw [if_pos hfinite]
      rfl
  · rw [if_neg hfinite, Number.toJson, Quanta.integer?_of_not_isFinite hfinite]
    dsimp only
    rw [if_neg hfinite]
    rfl

theorem toLeaf_toJson (name : String) (leaf : Leaf) :
    leaf.toJson.toRaw.toLeaf name = .ok leaf.canonical := by
  cases leaf with
  | number x => exact toLeaf_number_toJson name x
  | _ => rfl

/-- A value that becomes a leaf is no dictionary and no list. -/
theorem toNode_of_toLeaf {raw : Raw} {value : Leaf} (room : Nat) (arrays : Shape) {name : String}
    (h : raw.toLeaf name = .ok value) :
    toNode room arrays name raw = .ok ⟨"", name, .leaf value⟩ := by
  have hdictionary (entries) : raw ≠ dictionary entries := by
    rintro rfl
    cases h
  have hlist (items) : raw ≠ list items := by
    rintro rfl
    cases h
  rw [toNode, h]
  · rfl
  · exact hdictionary
  · exact hlist

theorem entriesToNodes_map {room : Nat} {nodes : List Node}
    (h : ∀ n ∈ nodes, toNode room .list n.name n.toJson.toRaw = .ok (n.canonical .list n.name)) :
    entriesToNodes room (Json.membersToRaw (nodes.map fun n ↦ (n.name, n.toJson))) =
      .ok (Forest.canonicalMembers nodes) := by
  induction nodes with
  | nil => rfl
  | cons n nodes ih =>
    rw [List.forall_mem_cons] at h
    rw [List.map_cons, Json.membersToRaw, entriesToNodes, ih h.2]
    change toNode room .list n.name n.toJson.toRaw >>= _ = _
    rw [h.1]
    rfl

theorem entriesToNodes_ofList {room : Nat} {nodes : List Node}
    (h : ∀ n ∈ nodes, toNode room .list n.name n.toJson.toRaw = .ok (n.canonical .list n.name)) :
    entriesToNodes room (Json.membersToRaw (Ordered.ofList (Forest.members nodes))) =
      .ok (Forest.collapse (Forest.canonicalMembers nodes)) := by
  rw [Forest.ofList_members, ← Forest.canonicalMembers_collapse]
  exact entriesToNodes_map fun n hn ↦ h n (Forest.mem_of_mem_collapse hn)

mutual

/-- The document of a node becomes the canonical form of the node. -/
theorem toNode_toJson {room : Nat} (arrays : Shape) (name : String) (n : Node)
    (hroom : n.height ≤ room) :
    toNode room arrays name n.toJson.toRaw = .ok (n.canonical arrays name) := by
  match n with
  | ⟨_, _, .leaf value⟩ => exact toNode_of_toLeaf room arrays (toLeaf_toJson name value)
  | ⟨_, _, .branch .dictionary children⟩ =>
    rw [Node.height] at hroom
    rw [Node.toJson, Json.toRaw, toNode, if_neg (by omega),
      entriesToNodes_ofList (forall_toNode_toJson children (by omega))]
    rfl
  | ⟨_, _, .branch .list children⟩ =>
    rw [Node.height] at hroom
    rw [Node.toJson, Json.toRaw, toNode, if_neg (by omega),
      itemsToNodes_items 0 children (by omega)]
    rfl

theorem forall_toNode_toJson {room : Nat} (nodes : List Node)
    (hroom : Forest.height nodes ≤ room) :
    ∀ n ∈ nodes, toNode room .list n.name n.toJson.toRaw = .ok (n.canonical .list n.name) := by
  match nodes with
  | [] =>
    intro n hn
    cases hn
  | n :: nodes =>
    rw [Forest.height, Nat.max_le] at hroom
    rw [List.forall_mem_cons]
    exact ⟨toNode_toJson .list n.name n hroom.1, forall_toNode_toJson nodes hroom.2⟩

theorem itemsToNodes_items {room : Nat} (index : Nat) (nodes : List Node)
    (hroom : Forest.height nodes ≤ room) :
    itemsToNodes room index (Json.itemsToRaw (Forest.items nodes)) =
      .ok (Forest.canonicalItems index nodes) := by
  match nodes with
  | [] => rfl
  | n :: nodes =>
    rw [Forest.height, Nat.max_le] at hroom
    rw [Forest.items, Json.itemsToRaw, itemsToNodes,
      toNode_toJson .dictionary (Forest.positionName index) n hroom.1,
      itemsToNodes_items (index + 1) nodes hroom.2]
    rfl

end

end Raw

namespace Forest

/-- The document of a tree is standard JSON, and its text is read as the document. -/
theorem read_exportText {root : Forest} (hlow : height root < callLimit) (indent : Option Int) :
    root.toJson.IsStandard ∧
      (Json.Source.text (root.exportText indent)).read = .ok root.toJson := by
  have hportable : root.toJson.IsPortable callLimit :=
    isPortable_ofList_members (by decide) (forall_isPortable root (by omega)).1
  refine ⟨hportable.isStandard, ?_⟩
  have hstyle (style : Json.Style) (h : style.IsStandard) :
      Json.readText (root.toJson.text style) = .ok root.toJson := by
    have hchars := Json.readChars_write h hportable.isReadable
    obtain ⟨rest, hrest⟩ : ∃ rest, root.toJson.write style 0 = '{' :: rest := by
      rw [toJson]
      cases Ordered.ofList (members root) with
      | nil => exact ⟨_, rfl⟩
      | cons member members => exact ⟨_, rfl⟩
    rw [Json.readText, Json.text, String.toList_ofList]
    split
    case h_1 heq =>
      rw [hrest] at heq
      exact absurd (List.cons.inj heq).1 (by decide)
    case h_2 => exact hchars
  cases indent with
  | none => exact hstyle _ (Json.Style.isStandard_line false)
  | some width => exact hstyle _ (Json.Style.isStandard_indented width.toNat)

/-- Exporting a tree and importing the text gives the canonical form of the tree. -/
theorem ofSource_eq_canonical {root : Forest} (hlow : height root < importLimit)
    (supply : Supply) (indent : Option Int) :
    ofSource supply (.text (root.exportText indent)) = .ok (supply.labelAll root.canonical) := by
  have hlimit : importLimit < callLimit := by decide
  have hread := (read_exportText (hlow.trans hlimit) indent).2
  have hforest : root.toJson.toRaw.toForest = .ok root.canonical :=
    Raw.entriesToNodes_ofList (Raw.forall_toNode_toJson root (by omega))
  rw [ofSource, hread]
  change (root.toJson.toRaw.toForest).map supply.labelAll = _
  rw [hforest]
  rfl

/--
Every low tree has a document of standard JSON, and the text of that document, with any indentation,
is imported as the canonical form of the tree with new identities. What is exported and imported once
more is the same again but for the identities.
-/
theorem ofSource_exportText {root : Forest} (hlow : height root < importLimit)
    (supply supply' : Supply) (indent indent' : Option Int) :
    root.toJson.IsStandard ∧
      ofSource supply (.text (root.exportText indent)) = .ok (supply.labelAll root.canonical) ∧
      ofSource supply' (.text (exportText (supply.labelAll root.canonical).1 indent')) =
        .ok (supply'.labelAll root.canonical) := by
  have hlimit : importLimit < callLimit := by decide
  refine ⟨(read_exportText (hlow.trans hlimit) indent).1, ofSource_eq_canonical hlow supply indent,
    ?_⟩
  have hheight : height (supply.labelAll root.canonical).1 < importLimit := by
    rw [Supply.height_labelAll]
    calc
      height root.canonical ≤ height (canonicalMembers root) := height_collapse_le _
      _ ≤ height root := (height_canonical_le 0 root).1
      _ < importLimit := hlow
  have hcanonical : canonical (supply.labelAll root.canonical).1 = root.canonical := by
    rw [canonical, (canonical_labelAll 0 supply root.canonical).1, ← canonical,
      canonical_canonical]
  rw [ofSource_eq_canonical hheight supply' indent', hcanonical]

/-- A list in a list becomes a dictionary, a formula a text, and of two nodes the last is left. -/
theorem ofSource_exportText_lists :
    ofSource ⟨0⟩ (.text (exportText [⟨"a", "x", .leaf (.number (0 / 0))⟩,
        ⟨"b", "y", .branch .list [⟨"c", "", .branch .list [⟨"d", "", .leaf (.expression "1")⟩]⟩]⟩,
        ⟨"e", "x", .leaf (.number (0 / 0))⟩] (some 2))) =
      .ok (Supply.labelAll ⟨0⟩ [⟨"", "x", .leaf (.text "")⟩,
        ⟨"", "y", .branch .list [⟨"", "0", .branch .dictionary [⟨"", "0", .leaf (.text "1")⟩]⟩]⟩]) :=
  (ofSource_exportText (by decide) ⟨0⟩ ⟨0⟩ (some 2) none).2.1

end Forest

end KeyTree
