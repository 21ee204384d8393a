import KeyTree.Proofs.Document.Import
import KeyTree.Proofs.Document.Record
import KeyTree.Proofs.Tree.Put

/-!
# Canonical trees

A plain document keeps less than a tree has. The canonical form of a tree is what is kept: formulas
and numbers that are not finite are texts, negative zeros are zeros, children of lists are named by
their positions, lists within lists are dictionaries, and names in dictionaries are different. It
has no identities. A canonical form is its own canonical form.
-/

namespace KeyTree

/-- The leaf that is left of a leaf in a plain document. -/
def Leaf.canonical : Leaf → Leaf
  | .number x => if x.isFinite then .number (Quanta.withoutNegativeZero x) else .text ""
  | .expression formula => .text formula
  | leaf => leaf

mutual

/-- The canonical form of a node under a name. `arrays` is the shape that a list has where the node
stands: a list directly within a list becomes a dictionary. -/
def Node.canonical (arrays : Shape) (name : String) : Node → Node
  | ⟨_, _, .leaf value⟩ => ⟨"", name, .leaf value.canonical⟩
  | ⟨_, _, .branch .dictionary children⟩ =>
    ⟨"", name, .branch .dictionary (Forest.collapse (Forest.canonicalMembers children))⟩
  | ⟨_, _, .branch .list children⟩ =>
    ⟨"", name, .branch arrays (Forest.canonicalItems 0 children)⟩

/-- The canonical forms of siblings under their own names. -/
def Forest.canonicalMembers : List Node → List Node
  | [] => []
  | n :: ns => n.canonical .list n.name :: Forest.canonicalMembers ns

/-- The canonical forms of the children of a list, which are named by their positions. -/
def Forest.canonicalItems (index : Nat) : List Node → List Node
  | [] => []
  | n :: ns =>
    n.canonical .dictionary (Forest.positionName index) :: Forest.canonicalItems (index + 1) ns

end

/-- The canonical form of a tree. -/
def Forest.canonical (root : Forest) : Forest := collapse (canonicalMembers root)

@[simp]
theorem Node.name_canonical (arrays : Shape) (name : String) (n : Node) :
    (n.canonical arrays name).name = name := by
  obtain ⟨id, name', payload⟩ := n
  cases payload with
  | leaf value => rfl
  | branch shape children => cases shape <;> rfl

namespace Forest

theorem canonicalMembers_eq_map (nodes : List Node) :
    canonicalMembers nodes = nodes.map fun n ↦ n.canonical .list n.name := by
  induction nodes with
  | nil => rfl
  | cons n nodes ih => rw [canonicalMembers, List.map_cons, ih]

theorem names_canonicalItems (index : Nat) (nodes : List Node) :
    names (canonicalItems index nodes) =
      (List.range' index nodes.length).map positionName := by
  induction nodes generalizing index with
  | nil => rfl
  | cons n nodes ih =>
    rw [canonicalItems, names_cons, ih, Node.name_canonical]
    rfl

/-! ## Siblings of one name -/

/-- What is put under the names of siblings is what is put under the names of the collapsed ones. -/
theorem ofList_named {β : Type} (f : Node → β) (nodes : List Node) :
    Ordered.ofList (nodes.map fun n ↦ (n.name, f n)) =
      (collapse nodes).map fun n ↦ (n.name, f n) := by
  have hpairs : (nodes.map fun n ↦ (n.name, f n)) =
      (nodes.map fun n ↦ (n.name, n)).map (Prod.map id f) := by
    rw [List.map_map]
    rfl
  rw [hpairs, Ordered.ofList_map, collapse, List.map_map]
  apply List.map_congr_left
  intro entry hentry
  rw [Function.comp_apply, name_of_mem_ofList hentry]
  rfl

theorem collapse_map {f : Node → Node} (hf : ∀ n, (f n).name = n.name) (nodes : List Node) :
    collapse (nodes.map f) = (collapse nodes).map f := by
  have hpairs : ((nodes.map f).map fun n ↦ (n.name, n)) = nodes.map fun n ↦ (n.name, f n) := by
    rw [List.map_map]
    apply List.map_congr_left
    intro n _
    rw [Function.comp_apply, hf]
  rw [collapse, hpairs, ofList_named, List.map_map]
  rfl

/-- Siblings may be collapsed before or after they are made canonical. -/
theorem canonicalMembers_collapse (nodes : List Node) :
    canonicalMembers (collapse nodes) = collapse (canonicalMembers nodes) := by
  rw [canonicalMembers_eq_map, canonicalMembers_eq_map,
    collapse_map fun n ↦ Node.name_canonical .list n.name n]

theorem collapse_canonicalItems (nodes : List Node) :
    collapse (canonicalItems 0 nodes) = canonicalItems 0 nodes := by
  apply collapse_eq_self
  rw [names_canonicalItems]
  exact Raw.nodup_positionNames 0 nodes.length

end Forest

/-! ## Canonical forms of canonical forms -/

theorem Quanta.isFinite_withoutNegativeZero {x : Float} (h : x.isFinite = true) :
    (withoutNegativeZero x).isFinite = true := by
  unfold withoutNegativeZero
  split
  · decide
  · exact h

theorem Quanta.withoutNegativeZero_withoutNegativeZero (x : Float) :
    withoutNegativeZero (withoutNegativeZero x) = withoutNegativeZero x := by
  unfold withoutNegativeZero
  split
  · decide
  case isFalse hzero => rfl

theorem Leaf.canonical_canonical (leaf : Leaf) : leaf.canonical.canonical = leaf.canonical := by
  cases leaf with
  | number x =>
    by_cases hfinite : x.isFinite = true
    · have hcanonical : (Leaf.number x).canonical = .number (Quanta.withoutNegativeZero x) :=
        if_pos hfinite
      rw [hcanonical, Leaf.canonical, if_pos (Quanta.isFinite_withoutNegativeZero hfinite),
        Quanta.withoutNegativeZero_withoutNegativeZero]
    · have hcanonical : (Leaf.number x).canonical = .text "" := if_neg hfinite
      rw [hcanonical, Leaf.canonical]
      exact fun _ h ↦ Leaf.noConfusion h
      exact fun _ h ↦ Leaf.noConfusion h
  | _ => rfl

mutual

/-- A canonical form stays as it is, unless it may be a list and lists are not kept. -/
theorem Node.canonical_canonical {before after : Shape}
    (h : before = .dictionary ∨ after = .list) (name : String) (n : Node) :
    (n.canonical before name).canonical after name = n.canonical before name := by
  match n with
  | ⟨_, _, .leaf value⟩ => rw [Node.canonical, Node.canonical, Leaf.canonical_canonical]
  | ⟨_, _, .branch .dictionary children⟩ =>
    rw [Node.canonical, Node.canonical, Forest.canonicalMembers_collapse,
      Forest.canonicalMembers_canonicalMembers children, Forest.collapse_collapse]
  | ⟨_, _, .branch .list children⟩ =>
    rw [Node.canonical]
    cases before with
    | dictionary =>
      rw [Node.canonical, Forest.canonicalMembers_canonicalItems 0 children,
        Forest.collapse_canonicalItems]
    | list =>
      obtain rfl : after = .list := h.resolve_left Shape.noConfusion
      rw [Node.canonical, Forest.canonicalItems_canonicalItems 0 children]

theorem Forest.canonicalMembers_canonicalMembers (nodes : List Node) :
    Forest.canonicalMembers (Forest.canonicalMembers nodes) = Forest.canonicalMembers nodes := by
  match nodes with
  | [] => rfl
  | n :: nodes =>
    rw [Forest.canonicalMembers, Forest.canonicalMembers, Node.name_canonical,
      Node.canonical_canonical (.inr rfl) n.name n, Forest.canonicalMembers_canonicalMembers nodes]

theorem Forest.canonicalMembers_canonicalItems (index : Nat) (nodes : List Node) :
    Forest.canonicalMembers (Forest.canonicalItems index nodes) =
      Forest.canonicalItems index nodes := by
  match nodes with
  | [] => rfl
  | n :: nodes =>
    rw [Forest.canonicalItems, Forest.canonicalMembers, Node.name_canonical,
      Node.canonical_canonical (.inr rfl) _ n,
      Forest.canonicalMembers_canonicalItems (index + 1) nodes]

theorem Forest.canonicalItems_canonicalItems (index : Nat) (nodes : List Node) :
    Forest.canonicalItems index (Forest.canonicalItems index nodes) =
      Forest.canonicalItems index nodes := by
  match nodes with
  | [] => rfl
  | n :: nodes =>
    rw [Forest.canonicalItems, Forest.canonicalItems, Node.canonical_canonical (.inl rfl) _ n,
      Forest.canonicalItems_canonicalItems (index + 1) nodes]

end

theorem Forest.canonical_canonical (root : Forest) : root.canonical.canonical = root.canonical := by
  rw [canonical, canonical, canonicalMembers_collapse, canonicalMembers_canonicalMembers,
    collapse_collapse]

/-! ## Identities and height -/

mutual

/-- Identities have no influence on the canonical form. -/
theorem Node.canonical_label (arrays : Shape) (name : String) (supply : Supply) (n : Node) :
    (supply.label n).1.canonical arrays name = n.canonical arrays name ∧
      (supply.label n).1.name = n.name := by
  match n with
  | ⟨_, _, .leaf value⟩ => exact ⟨rfl, rfl⟩
  | ⟨_, _, .branch .dictionary children⟩ =>
    obtain ⟨hmembers, -⟩ := Forest.canonical_labelAll 0 (supply.skip 1) children
    refine ⟨?_, rfl⟩
    simp only [Supply.label, Node.canonical, hmembers]
  | ⟨_, _, .branch .list children⟩ =>
    obtain ⟨-, hitems⟩ := Forest.canonical_labelAll 0 (supply.skip 1) children
    refine ⟨?_, rfl⟩
    simp only [Supply.label, Node.canonical, hitems]

theorem Forest.canonical_labelAll (index : Nat) (supply : Supply) (nodes : List Node) :
    Forest.canonicalMembers (supply.labelAll nodes).1 = Forest.canonicalMembers nodes ∧
      Forest.canonicalItems index (supply.labelAll nodes).1 =
        Forest.canonicalItems index nodes := by
  match nodes with
  | [] => exact ⟨rfl, rfl⟩
  | n :: nodes =>
    obtain ⟨hmember, hname⟩ := Node.canonical_label .list n.name supply n
    obtain ⟨hitem, -⟩ := Node.canonical_label .dictionary (Forest.positionName index) supply n
    obtain ⟨hmembers, hitems⟩ := Forest.canonical_labelAll (index + 1) (supply.label n).2 nodes
    simp only [Supply.labelAll, Forest.canonicalMembers, Forest.canonicalItems, hname, hmember,
      hitem, hmembers, hitems, and_self]

end

namespace Forest

theorem height_collapse_le (nodes : Forest) : height nodes.collapse ≤ height nodes := by
  rw [height_le_iff]
  intro n hn
  exact height_le_iff.1 (Nat.le_refl _) n (mem_of_mem_collapse hn)

end Forest

mutual

/-- A canonical form is as low as the tree. -/
theorem Node.height_canonical_le (arrays : Shape) (name : String) (n : Node) :
    (n.canonical arrays name).height ≤ n.height := by
  match n with
  | ⟨_, _, .leaf value⟩ => exact Nat.le_refl 1
  | ⟨_, _, .branch .dictionary children⟩ =>
    simp only [Node.canonical, Node.height]
    exact Nat.succ_le_succ ((Forest.height_collapse_le _).trans
      (Forest.height_canonical_le 0 children).1)
  | ⟨_, _, .branch .list children⟩ =>
    simp only [Node.canonical, Node.height]
    exact Nat.succ_le_succ (Forest.height_canonical_le 0 children).2

theorem Forest.height_canonical_le (index : Nat) (nodes : List Node) :
    Forest.height (Forest.canonicalMembers nodes) ≤ Forest.height nodes ∧
      Forest.height (Forest.canonicalItems index nodes) ≤ Forest.height nodes := by
  match nodes with
  | [] => exact ⟨Nat.le_refl 0, Nat.le_refl 0⟩
  | n :: nodes =>
    obtain ⟨hmembers, hitems⟩ := Forest.height_canonical_le (index + 1) nodes
    simp only [Forest.canonicalMembers, Forest.canonicalItems, Forest.height]
    constructor
    · exact max_le_max (Node.height_canonical_le .list n.name n) hmembers
    · exact max_le_max (Node.height_canonical_le .dictionary _ n) hitems

end

mutual

theorem Supply.height_label (supply : Supply) (n : Node) :
    (supply.label n).1.height = n.height := by
  match n with
  | ⟨_, _, .leaf value⟩ => rfl
  | ⟨_, _, .branch shape children⟩ =>
    simp only [label, Node.height, height_labelAll (supply.skip 1) children]

theorem Supply.height_labelAll (supply : Supply) (nodes : List Node) :
    Forest.height (supply.labelAll nodes).1 = Forest.height nodes := by
  match nodes with
  | [] => rfl
  | n :: nodes =>
    simp only [labelAll, Forest.height, height_label supply n,
      height_labelAll (supply.label n).2 nodes]

end

end KeyTree
