import KeyTree.Proofs.Document.Export
import KeyTree.Proofs.Document.Names
import KeyTree.Proofs.Number.Nearest

/-!
# Documents in normal form

What is imported and exported again is the document in a normal form. Null becomes an empty text, a
number that is not finite becomes null, an integer becomes the nearest double, and an array that
stands directly in an array becomes an object whose keys are the positions. All else stays. Only
integers out of the range of doubles keep an object from being imported.
-/

namespace KeyTree

namespace Json

/-- Values under their positions. -/
def numbered (index : Nat) : List Json → List (String × Json)
  | [] => []
  | item :: rest => (toString index, item) :: numbered (index + 1) rest

/-- The normal form of a value where an array stands for a list or, in another array, for a
dictionary. -/
inductive Normal : Shape → Json → Json → Prop
  | null (arrays : Shape) : Normal arrays .null (.string "")
  | boolean (arrays : Shape) (value : Bool) : Normal arrays (.boolean value) (.boolean value)
  | string (arrays : Shape) (value : String) : Normal arrays (.string value) (.string value)
  | integer (arrays : Shape) {i j : Int} {x : Float} (hnearest : Quanta.IsNearest x i)
      (hvalue : Quanta.value x = j * Quanta.one) : Normal arrays (.integer i) (.integer j)
  | whole (arrays : Shape) {x : Float} {i : Int} (hfinite : x.isFinite = true)
      (hvalue : Quanta.value x = i * Quanta.one) : Normal arrays (.number x) (.integer i)
  | fraction (arrays : Shape) {x : Float} (hfinite : x.isFinite = true)
      (hvalue : ∀ i : Int, Quanta.value x ≠ i * Quanta.one) : Normal arrays (.number x) (.number x)
  | unbounded (arrays : Shape) {x : Float} (hfinite : ¬ x.isFinite = true) :
      Normal arrays (.number x) .null
  | array {items results : List Json} (h : List.Forall₂ (Normal .dictionary) items results) :
      Normal .list (.array items) (.array results)
  | inner {items results : List Json} (h : List.Forall₂ (Normal .dictionary) items results) :
      Normal .dictionary (.array items) (.object (numbered 0 results))
  | object (arrays : Shape) {members results : List (String × Json)}
      (hkeys : Ordered.keys results = Ordered.keys members)
      (h : List.Forall₂ (Normal .list) (members.map (·.2)) (results.map (·.2))) :
      Normal arrays (.object members) (.object results)

/-- An integer stands in a value, at whatever depth. -/
inductive Holds (i : Int) : Json → Prop
  | integer : Holds i (.integer i)
  | item {items : List Json} {item : Json} (hmem : item ∈ items) (h : Holds i item) :
      Holds i (.array items)
  | member {members : List (String × Json)} {member : String × Json} (hmem : member ∈ members)
      (h : Holds i member.2) : Holds i (.object members)

/-- All integers in a value are in the range of doubles. -/
def InRange (j : Json) : Prop := ∀ i, j.Holds i → ¬ Quanta.OutOfRange i

theorem inRange_integer {i : Int} : (integer i).InRange ↔ ¬ Quanta.OutOfRange i := by
  constructor
  · intro h
    exact h i .integer
  · intro h i' hi'
    cases hi'
    exact h

theorem inRange_array {items : List Json} :
    (array items).InRange ↔ ∀ item ∈ items, item.InRange := by
  constructor
  · intro h item hmem i hi
    exact h i (.item hmem hi)
  · intro h i hi
    cases hi with
    | item hmem hi => exact h _ hmem i hi

theorem inRange_object {members : List (String × Json)} :
    (object members).InRange ↔ ∀ member ∈ members, member.2.InRange := by
  constructor
  · intro h member hmem i hi
    exact h i (.member hmem hi)
  · intro h i hi
    cases hi with
    | member hmem hi => exact h _ hmem i hi

end Json

/-! ## Documents of siblings -/

namespace Forest

theorem items_eq_map (nodes : List Node) : items nodes = nodes.map Node.toJson := by
  induction nodes with
  | nil => rfl
  | cons n nodes ih => rw [items, List.map_cons, ih]

/-- Siblings of different names are the members of an object. -/
theorem ofList_members_of_nodup {nodes : List Node} (hnames : (names nodes).Nodup) :
    Ordered.ofList (members nodes) = nodes.map fun n ↦ (n.name, n.toJson) := by
  rw [ofList_members, collapse_eq_self hnames]

/-- Siblings that are named by their positions are numbered values. -/
theorem map_eq_numbered {nodes : List Node} {index : Nat}
    (hnames : names nodes = (List.range' index nodes.length).map positionName) :
    nodes.map (fun n ↦ (n.name, n.toJson)) = Json.numbered index (nodes.map Node.toJson) := by
  induction nodes generalizing index with
  | nil => rfl
  | cons n nodes ih =>
    rw [names_cons, List.length_cons, List.range'_succ, List.map_cons] at hnames
    obtain ⟨hname, hnames⟩ := List.cons.inj hnames
    rw [List.map_cons, List.map_cons, Json.numbered, ih hnames, hname, positionName]

end Forest

namespace Supply

mutual

/-- Identities do not show in documents. -/
theorem toJson_label (supply : Supply) (n : Node) : (label supply n).1.toJson = n.toJson := by
  match n with
  | ⟨_, _, .leaf value⟩ => rfl
  | ⟨_, _, .branch .dictionary children⟩ =>
    simp only [label, Node.toJson, (members_labelAll (supply.skip 1) children).1]
  | ⟨_, _, .branch .list children⟩ =>
    simp only [label, Node.toJson, (members_labelAll (supply.skip 1) children).2]

theorem members_labelAll (supply : Supply) (nodes : List Node) :
    Forest.members (labelAll supply nodes).1 = Forest.members nodes ∧
      Forest.items (labelAll supply nodes).1 = Forest.items nodes := by
  match nodes with
  | [] => exact ⟨rfl, rfl⟩
  | n :: nodes =>
    obtain ⟨hmembers, hitems⟩ := members_labelAll (label supply n).2 nodes
    have hname := (label_spec supply n).2.2.1
    have hvalue := toJson_label supply n
    simp only [labelAll, Forest.members, Forest.items, hmembers, hitems, hname, hvalue, and_self]

end

end Supply

/-! ## What is imported -/

namespace Raw

theorem exists_of_toLeaf_integer {name : String} {raw : Raw} {i : Int} {value : Leaf}
    (hraw : raw = integer i) (h : raw.toLeaf name = .ok value) :
    ∃ x, Quanta.ofInt? i = some x ∧ value = .number x := by
  unfold toLeaf at h
  -- The rounding is a computation on powers of two, which no step may unfold.
  obtain ⟨round, hround⟩ : ∃ round, round = Quanta.ofInt? := ⟨_, rfl⟩
  rw [← hround] at h ⊢
  subst hraw
  dsimp only at h
  cases hx : round i with
  | none =>
    rw [hx] at h
    cases h
  | some x =>
    rw [hx] at h
    exact ⟨x, rfl, (Except.ok.inj h).symm⟩

/-- An integer that becomes a leaf is in range and exported as the nearest double. -/
theorem normal_integer {name : String} {value : Leaf} (arrays : Shape) {i : Int}
    (h : (integer i).toLeaf name = .ok value) :
    Json.Normal arrays (.integer i) value.toJson ∧ ¬ Quanta.OutOfRange i := by
  obtain ⟨x, hx, rfl⟩ := exists_of_toLeaf_integer rfl h
  obtain ⟨j, hj⟩ := Quanta.exists_integer?_of_ofInt? hx
  have hrange : ¬ Quanta.ofInt? i = none := by
    rw [hx]
    exact Option.some_ne_none x
  refine ⟨?_, mt (Quanta.ofInt?_eq_none_iff i).2 hrange⟩
  rw [Leaf.toJson, Number.toJson, hj]
  exact .integer arrays (Quanta.isNearest_of_ofInt? hx) (Quanta.value_of_integer? hj).2

theorem normal_number (arrays : Shape) (x : Float) :
    Json.Normal arrays (.number x) (Number.toJson x) := by
  unfold Number.toJson
  cases hwhole : Quanta.integer? x with
  | some i =>
    obtain ⟨hfinite, hvalue⟩ := Quanta.value_of_integer? hwhole
    exact .whole arrays hfinite hvalue
  | none =>
    dsimp only
    split
    case isTrue hfinite =>
      exact .fraction arrays hfinite (Quanta.value_ne_of_integer?_none hfinite hwhole)
    case isFalse hfinite => exact .unbounded arrays hfinite

/-- A value that becomes a leaf is exported in normal form, and in range if it is an integer. -/
theorem normal_of_toLeaf {name : String} {j : Json} {value : Leaf} (arrays : Shape)
    (h : j.toRaw.toLeaf name = .ok value) : Json.Normal arrays j value.toJson ∧ j.InRange := by
  cases j with
  | null =>
    obtain rfl := Except.ok.inj h
    exact ⟨.null arrays, nofun⟩
  | boolean value =>
    obtain rfl := Except.ok.inj h
    exact ⟨.boolean arrays value, nofun⟩
  | string value =>
    obtain rfl := Except.ok.inj h
    exact ⟨.string arrays value, nofun⟩
  | integer i =>
    obtain ⟨hnormal, hrange⟩ := normal_integer arrays h
    exact ⟨hnormal, Json.inRange_integer.2 hrange⟩
  | number x =>
    obtain rfl := Except.ok.inj h
    exact ⟨normal_number arrays x, nofun⟩
  | array items => cases h
  | object members => cases h

/-- Values that are in normal form one by one make an array in normal form. -/
theorem normal_array {arrays : Shape} {name : String} {items : List Json} {nodes : List Node}
    (hnames : Forest.names nodes = (List.range' 0 nodes.length).map Forest.positionName)
    (h : List.Forall₂ (Json.Normal .dictionary) items (nodes.map Node.toJson)) :
    Json.Normal arrays (.array items) (Node.mk "" name (.branch arrays nodes)).toJson := by
  cases arrays with
  | list =>
    rw [Node.toJson, Forest.items_eq_map]
    exact .array h
  | dictionary =>
    have hnodup : (Forest.names nodes).Nodup := hnames ▸ nodup_positionNames 0 nodes.length
    rw [Node.toJson, Forest.ofList_members_of_nodup hnodup, Forest.map_eq_numbered hnames]
    exact .inner h

theorem normal_object (arrays : Shape) {members : List (String × Json)} {nodes : List Node}
    (hkeys : (Ordered.keys members).Nodup) (hnames : Forest.names nodes = Ordered.keys members)
    (h : List.Forall₂ (Json.Normal .list) (members.map (·.2)) (nodes.map Node.toJson)) :
    Json.Normal arrays (.object members) (.object (Ordered.ofList (Forest.members nodes))) := by
  rw [Forest.ofList_members_of_nodup (hnames ▸ hkeys)]
  apply Json.Normal.object arrays
  · rw [← hnames, Ordered.keys, List.map_map]
    rfl
  · rw [List.map_map]
    exact h

theorem exists_leaf_of_toNode {room : Nat} {arrays : Shape} {name : String} {raw : Raw} {n : Node}
    (hlist : ∀ items, raw ≠ list items) (hdictionary : ∀ entries, raw ≠ dictionary entries)
    (h : toNode room arrays name raw = .ok n) :
    ∃ value, raw.toLeaf name = .ok value ∧ Node.mk "" name (.leaf value) = n := by
  rw [toNode] at h
  · exact exists_of_map_eq_ok h
  · exact hdictionary
  · exact hlist

mutual

/-- A value that becomes a node is exported in normal form, and all its integers are in range. -/
theorem normal_of_toNode {room : Nat} {arrays : Shape} {name : String} {n : Node} (j : Json)
    (hnames : j.toRaw.HasUniqueNames) (h : toNode room arrays name j.toRaw = .ok n) :
    Json.Normal arrays j n.toJson ∧ j.InRange := by
  match j with
  | .array items =>
    rw [Json.toRaw, toNode] at h
    split at h
    · cases h
    · obtain ⟨nodes, hitems, h⟩ := exists_of_bind_eq_ok h
      obtain rfl := Except.ok.inj h
      have hpositions := (itemsToNodes_spec _ hitems).1
      obtain ⟨hnormal, hrange⟩ := normal_of_itemsToNodes items hnames hitems
      have hlength : nodes.length = (Json.itemsToRaw items).length := by
        simpa [Forest.names] using congrArg List.length hpositions
      rw [← hlength] at hpositions
      exact ⟨normal_array hpositions hnormal, Json.inRange_array.2 hrange⟩
  | .object members =>
    rw [Json.toRaw, toNode] at h
    split at h
    · cases h
    · obtain ⟨nodes, hentries, h⟩ := exists_of_bind_eq_ok h
      obtain rfl := Except.ok.inj h
      have hkeys := (entriesToNodes_spec _ hentries).1
      rw [Json.keyNames_membersToRaw] at hkeys
      obtain ⟨hnormal, hrange⟩ := normal_of_entriesToNodes members hnames.2 hentries
      have hnodup : (Ordered.keys members).Nodup := Json.keyNames_membersToRaw members ▸ hnames.1
      exact ⟨normal_object arrays hnodup hkeys hnormal, Json.inRange_object.2 hrange⟩
  | .null | .boolean _ | .integer _ | .number _ | .string _ =>
    obtain ⟨value, hvalue, rfl⟩ := exists_leaf_of_toNode
      (fun _ hraw ↦ by cases hraw) (fun _ hraw ↦ by cases hraw) h
    exact normal_of_toLeaf arrays hvalue

theorem normal_of_itemsToNodes {room index : Nat} {nodes : List Node} (items : List Json)
    (hnames : ItemsHaveUniqueNames (Json.itemsToRaw items))
    (h : itemsToNodes room index (Json.itemsToRaw items) = .ok nodes) :
    List.Forall₂ (Json.Normal .dictionary) items (nodes.map Node.toJson) ∧
      ∀ item ∈ items, item.InRange := by
  match items with
  | [] =>
    obtain rfl := Except.ok.inj h
    exact ⟨.nil, List.forall_mem_nil _⟩
  | item :: rest =>
    rw [Json.itemsToRaw, itemsToNodes] at h
    obtain ⟨n, hnode, h⟩ := exists_of_bind_eq_ok h
    obtain ⟨nodes, hrest, h⟩ := exists_of_bind_eq_ok h
    obtain rfl := Except.ok.inj h
    obtain ⟨hnormal, hrange⟩ := normal_of_toNode item hnames.1 hnode
    obtain ⟨hnormals, hranges⟩ := normal_of_itemsToNodes rest hnames.2 hrest
    rw [List.forall_mem_cons]
    exact ⟨.cons hnormal hnormals, hrange, hranges⟩

theorem normal_of_entriesToNodes {room : Nat} {nodes : List Node} (members : List (String × Json))
    (hnames : EntriesHaveUniqueNames (Json.membersToRaw members))
    (h : entriesToNodes room (Json.membersToRaw members) = .ok nodes) :
    List.Forall₂ (Json.Normal .list) (members.map (·.2)) (nodes.map Node.toJson) ∧
      ∀ member ∈ members, member.2.InRange := by
  match members with
  | [] =>
    obtain rfl := Except.ok.inj h
    exact ⟨.nil, List.forall_mem_nil _⟩
  | (key, value) :: rest =>
    rw [Json.membersToRaw, entriesToNodes] at h
    obtain ⟨n, hnode, h⟩ := exists_of_bind_eq_ok h
    obtain ⟨nodes, hrest, h⟩ := exists_of_bind_eq_ok h
    obtain rfl := Except.ok.inj h
    obtain ⟨hnormal, hrange⟩ := normal_of_toNode value hnames.1 hnode
    obtain ⟨hnormals, hranges⟩ := normal_of_entriesToNodes rest hnames.2 hrest
    rw [List.forall_mem_cons]
    exact ⟨.cons hnormal hnormals, hrange, hranges⟩

end

/-! ## What can be imported -/

theorem exists_toLeaf_integer (name : String) {raw : Raw} {i : Int} (hraw : raw = integer i)
    (hrange : ¬ Quanta.OutOfRange i) : ∃ value, raw.toLeaf name = .ok value := by
  cases hx : Quanta.ofInt? i with
  | none => exact absurd ((Quanta.ofInt?_eq_none_iff i).1 hx) hrange
  | some x => exact ⟨_, toLeaf_of_eq_integer name hraw hx⟩

mutual

/-- A value whose integers are in range becomes a node, unless it nests too deeply. -/
theorem exists_toNode {room : Nat} (arrays : Shape) (name : String) (j : Json) (hrange : j.InRange)
    (hdepth : j.toRaw.depth ≤ room) : ∃ n, toNode room arrays name j.toRaw = .ok n := by
  match j with
  | .array items =>
    rw [Json.toRaw, depth] at hdepth
    obtain ⟨nodes, hnodes⟩ :=
      exists_itemsToNodes 0 items (Json.inRange_array.1 hrange) (Nat.le_sub_one_of_lt hdepth)
    rw [Json.toRaw, toNode, if_neg (by omega), hnodes]
    exact ⟨_, rfl⟩
  | .object members =>
    rw [Json.toRaw, depth] at hdepth
    obtain ⟨nodes, hnodes⟩ :=
      exists_entriesToNodes members (Json.inRange_object.1 hrange) (Nat.le_sub_one_of_lt hdepth)
    rw [Json.toRaw, toNode, if_neg (by omega), hnodes]
    exact ⟨_, rfl⟩
  | .integer i =>
    obtain ⟨value, hvalue⟩ := exists_toLeaf_integer name rfl (Json.inRange_integer.1 hrange)
    exact ⟨_, toNode_of_toLeaf room arrays hvalue⟩
  | .null | .boolean _ | .number _ | .string _ => exact ⟨_, toNode_of_toLeaf room arrays rfl⟩

theorem exists_itemsToNodes {room : Nat} (index : Nat) (items : List Json)
    (hrange : ∀ item ∈ items, item.InRange)
    (hdepth : depth.depthItems (Json.itemsToRaw items) ≤ room) :
    ∃ nodes, itemsToNodes room index (Json.itemsToRaw items) = .ok nodes := by
  match items with
  | [] => exact ⟨[], rfl⟩
  | item :: rest =>
    rw [List.forall_mem_cons] at hrange
    rw [Json.itemsToRaw, depth.depthItems, Nat.max_le] at hdepth
    obtain ⟨n, hn⟩ :=
      exists_toNode .dictionary (Forest.positionName index) item hrange.1 hdepth.1
    obtain ⟨nodes, hnodes⟩ := exists_itemsToNodes (index + 1) rest hrange.2 hdepth.2
    rw [Json.itemsToRaw, itemsToNodes, hn, hnodes]
    exact ⟨_, rfl⟩

theorem exists_entriesToNodes {room : Nat} (members : List (String × Json))
    (hrange : ∀ member ∈ members, member.2.InRange)
    (hdepth : depth.depthEntries (Json.membersToRaw members) ≤ room) :
    ∃ nodes, entriesToNodes room (Json.membersToRaw members) = .ok nodes := by
  match members with
  | [] => exact ⟨[], rfl⟩
  | (key, value) :: rest =>
    rw [List.forall_mem_cons] at hrange
    rw [Json.membersToRaw, depth.depthEntries, Nat.max_le] at hdepth
    obtain ⟨n, hn⟩ := exists_toNode .list key value hrange.1 hdepth.1
    obtain ⟨nodes, hnodes⟩ := exists_entriesToNodes rest hrange.2 hdepth.2
    rw [Json.membersToRaw, entriesToNodes, hnodes]
    change ∃ nodes', toNode room .list key value.toRaw >>= _ = Except.ok nodes'
    rw [hn]
    exact ⟨_, rfl⟩

end

/-- The tree of a document is what a dictionary holds that the document would become as a value. -/
theorem toNode_dictionary (entries : List (Key × Raw)) :
    toNode importLimit .list "" (dictionary entries) =
      (toForest (dictionary entries)).map fun root ↦ ⟨"", "", .branch .dictionary root⟩ := by
  rw [toNode, if_neg (by decide), toForest]
  cases entriesToNodes (importLimit - 1) entries <;> rfl

theorem exists_toForest {document : Json} {members : List (String × Json)}
    (hobject : document = .object members) (hrange : document.InRange)
    (hdepth : document.toRaw.depth ≤ importLimit) :
    ∃ root, document.toRaw.toForest = .ok root := by
  obtain ⟨n, hn⟩ := exists_toNode .list "" document hrange hdepth
  rw [hobject, Json.toRaw, toNode_dictionary] at hn
  obtain ⟨root, hroot, -⟩ := exists_of_map_eq_ok hn
  rw [hobject]
  exact ⟨root, hroot⟩

theorem normal_of_toForest {document : Json} {root : Forest}
    (hnames : document.toRaw.HasUniqueNames) (h : document.toRaw.toForest = .ok root) :
    (∃ members, document = .object members) ∧ document.InRange ∧
      Json.Normal .list document root.toJson := by
  cases document with
  | object members =>
    have hnode : toNode importLimit .list "" (Json.object members).toRaw =
        .ok ⟨"", "", .branch .dictionary root⟩ := by
      rw [Json.toRaw, toNode_dictionary, ← Json.toRaw, h]
      rfl
    obtain ⟨hnormal, hrange⟩ := normal_of_toNode (.object members) hnames hnode
    exact ⟨⟨members, rfl⟩, hrange, hnormal⟩
  | _ => cases h

end Raw

/-! ## Importing and exporting -/

namespace Forest

theorem toJson_labelAll (supply : Supply) (root : Forest) :
    toJson (supply.labelAll root).1 = root.toJson := by
  rw [toJson, toJson, (Supply.members_labelAll supply root).1]

/--
A document with one member for each key that does not nest too deeply is refused just if it is no
object or holds an integer out of range. Otherwise it is exported in normal form when it has been
imported.
-/
theorem toJson_ofDocument (supply : Supply) (document : Json)
    (hnames : document.toRaw.HasUniqueNames) (hdepth : document.toRaw.depth ≤ importLimit) :
    ((∃ fault, ofDocument supply document.toRaw = .error fault) ↔
      (∀ members, document ≠ .object members) ∨ ∃ i, document.Holds i ∧ Quanta.OutOfRange i) ∧
    ∀ root supply', ofDocument supply document.toRaw = .ok (root, supply') →
      Json.Normal .list document root.toJson := by
  unfold ofDocument
  cases hforest : document.toRaw.toForest with
  | error fault =>
    refine ⟨iff_of_true ⟨fault, rfl⟩ ?_, nofun⟩
    by_contra haccepted
    rw [not_or, not_forall] at haccepted
    obtain ⟨⟨members, hobject⟩, hholds⟩ := haccepted
    have hrange : document.InRange := fun i hi hout ↦ hholds ⟨i, hi, hout⟩
    obtain ⟨root, hroot⟩ := Raw.exists_toForest (not_not.1 hobject) hrange hdepth
    rw [hforest] at hroot
    cases hroot
  | ok nodes =>
    obtain ⟨⟨members, hobject⟩, hrange, hnormal⟩ := Raw.normal_of_toForest hnames hforest
    constructor
    · refine iff_of_false (fun ⟨fault, hfault⟩ ↦ by cases hfault) ?_
      rintro (hmembers | ⟨i, hi, hout⟩)
      · exact hmembers members hobject
      · exact hrange i hi hout
    · intro root supply' h
      obtain rfl := congrArg Prod.fst (Except.ok.inj h)
      rw [toJson_labelAll]
      exact hnormal

/-- A document with an array in an array, an integer that is no double and a number without a
fraction. -/
def mixed : Json := .object [
  ("a", .array [.array [.null, .number 1.5], .boolean true]),
  ("b", .integer 9007199254740993),
  ("c", .object [("a", .number 2), ("b", .number (0 / 0))])]

theorem toJson_ofDocument_mixed :
    ((∃ fault, ofDocument ⟨0⟩ mixed.toRaw = .error fault) ↔
      (∀ members, mixed ≠ .object members) ∨ ∃ i, mixed.Holds i ∧ Quanta.OutOfRange i) ∧
    ∀ root supply', ofDocument ⟨0⟩ mixed.toRaw = .ok (root, supply') →
      Json.Normal .list mixed root.toJson := by
  apply toJson_ofDocument
  · exact ⟨by decide, ⟨⟨trivial, trivial, trivial⟩, trivial, trivial⟩, trivial,
      ⟨by decide, trivial, trivial, trivial⟩, trivial⟩
  · decide

end Forest

end KeyTree
