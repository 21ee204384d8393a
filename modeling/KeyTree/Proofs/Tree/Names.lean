import KeyTree.Proofs.Ordered
import KeyTree.Tree.Names
import Mathlib.Data.List.Find

/-!
# Names of kinds and siblings

The children of a dictionary are to have different names, at every depth. Collapsing makes the names
of any siblings different, and leaves siblings alone whose names are different already.
-/

namespace KeyTree

/-- A kind is known by its name alone. -/
theorem Kind.name_of_ofName? {name : String} {kind : Kind} (h : ofName? name = some kind) :
    kind.name = name := by
  simpa using List.find?_some h

/-- The names of siblings in order. -/
def Forest.names (nodes : Forest) : List String := nodes.map (·.name)

/-- Whether siblings may be held in a shape: a dictionary has one child under each name. -/
def Shape.Admits (shape : Shape) (nodes : Forest) : Prop :=
  shape = .dictionary → nodes.names.Nodup

/-- The children of every dictionary in a payload have different names. -/
inductive Payload.HasUniqueNames : Payload Node → Prop
  | leaf (value : Leaf) : HasUniqueNames (.leaf value)
  | branch {shape : Shape} {children : Forest} (names : shape.Admits children)
      (below : ∀ n ∈ children, HasUniqueNames n.payload) : HasUniqueNames (.branch shape children)

/-- The siblings may be held in a shape, and so may all siblings below them. -/
def Forest.HasUniqueNamesAs (shape : Shape) (nodes : Forest) : Prop :=
  shape.Admits nodes ∧ ∀ n ∈ nodes, n.payload.HasUniqueNames

/-- A tree whose names are different at the root and in every dictionary. -/
def Forest.HasUniqueNames (root : Forest) : Prop := root.HasUniqueNamesAs .dictionary

theorem Payload.hasUniqueNames_branch {shape : Shape} {children : Forest} :
    (Payload.branch shape children).HasUniqueNames ↔ Forest.HasUniqueNamesAs shape children := by
  constructor
  · intro h
    cases h with
    | branch names below => exact ⟨names, below⟩
  · intro h
    exact .branch h.1 h.2

theorem Shape.admits_list (nodes : Forest) : Shape.list.Admits nodes := by
  intro h
  cases h

theorem Shape.admits_dictionary {nodes : Forest} :
    Shape.dictionary.Admits nodes ↔ nodes.names.Nodup := by
  constructor
  · intro h
    exact h rfl
  · intro h _
    exact h

theorem Shape.admits_congr {shape : Shape} {nodes nodes' : Forest}
    (hnames : nodes'.names = nodes.names) : shape.Admits nodes' ↔ shape.Admits nodes := by
  rw [Admits, Admits, hnames]

namespace Forest

@[simp]
theorem names_nil : names [] = [] := rfl

@[simp]
theorem names_cons (n : Node) (nodes : List Node) :
    names (n :: nodes) = n.name :: names nodes := rfl

@[simp]
theorem names_append (left right : List Node) :
    names (left ++ right) = names left ++ names right := List.map_append

theorem mem_names_reverse {nodes : Forest} {name : String} :
    name ∈ names nodes.reverse ↔ name ∈ names nodes := by
  rw [names, List.map_reverse, List.mem_reverse, names]

theorem hasUniqueNamesAs_nil (shape : Shape) : HasUniqueNamesAs shape [] := by
  refine ⟨fun _ ↦ List.nodup_nil, ?_⟩
  intro n hn
  cases hn

theorem named?_eq_none_iff {nodes : Forest} {name : String} :
    nodes.named? name = none ↔ name ∉ nodes.names := by
  unfold named? names
  rw [List.find?_eq_none]
  constructor
  · intro h hmem
    obtain ⟨n, hn, rfl⟩ := List.mem_map.1 hmem
    exact h n hn (beq_self_eq_true _)
  · intro h n hn heq
    rw [beq_iff_eq] at heq
    exact h (List.mem_map.2 ⟨n, hn, heq⟩)

/-- The first sibling of a name, with what stands before and behind it. -/
theorem eq_append_of_named? {nodes : Forest} {name : String} {n : Node}
    (h : nodes.named? name = some n) :
    n.name = name ∧ ∃ before after, nodes = before ++ n :: after ∧ name ∉ names before := by
  unfold named? at h
  obtain ⟨hname, before, after, rfl, hbefore⟩ := List.find?_eq_some_iff_append.1 h
  rw [beq_iff_eq] at hname
  refine ⟨hname, before, after, rfl, ?_⟩
  rw [← named?_eq_none_iff, named?, List.find?_eq_none]
  intro m hm heq
  have hne := hbefore m hm
  rw [heq] at hne
  cases hne

theorem named?_insert {before : List Node} (n : Node) (after : List Node)
    (hbefore : n.name ∉ names before) :
    named? (before ++ n :: after) n.name = some n := by
  have hnone : before.find? (fun m ↦ m.name == n.name) = none := named?_eq_none_iff.2 hbefore
  simp [named?, List.find?_append, hnone]

theorem replaceNamed_append {before after : List Node} {n : Node} (new : Node)
    (hbefore : n.name ∉ names before) :
    replaceNamed n.name new (before ++ n :: after) = before ++ new :: after := by
  induction before with
  | nil =>
    rw [List.nil_append, replaceNamed, if_pos (beq_self_eq_true _)]
    rfl
  | cons m before ih =>
    rw [names_cons, List.mem_cons, not_or] at hbefore
    have hne : ¬ (m.name == n.name) = true := by
      rw [beq_iff_eq]
      exact fun heq ↦ hbefore.1 heq.symm
    rw [List.cons_append, replaceNamed, if_neg hne, ih hbefore.2]
    rfl

/-- A node takes its place among siblings: that of the first one of its name, or the last place if
there is none. -/
inductive TakesPlace (new : Node) : Forest → Forest → Prop
  | first {before after : List Node} {old : Node} (hname : old.name = new.name)
      (hbefore : new.name ∉ names before) :
      TakesPlace new (before ++ old :: after) (before ++ new :: after)
  | last {nodes : Forest} (hnone : new.name ∉ names nodes) : TakesPlace new nodes (nodes ++ [new])

theorem TakesPlace.cons {new n : Node} {nodes changed : Forest} (h : TakesPlace new nodes changed)
    (hname : n.name ≠ new.name) : TakesPlace new (n :: nodes) (n :: changed) := by
  have hnot {others : List Node} (hothers : new.name ∉ names others) :
      new.name ∉ names (n :: others) := by
    rw [names_cons, List.mem_cons, not_or]
    exact ⟨hname.symm, hothers⟩
  cases h with
  | @first before after old hold hbefore =>
    exact @first new (n :: before) after old hold (hnot hbefore)
  | last hnone => exact .last (hnot hnone)

theorem takesPlace_putNamed (new : Node) (nodes : Forest) :
    TakesPlace new nodes (putNamed new nodes) := by
  induction nodes with
  | nil => exact .last List.not_mem_nil
  | cons n nodes ih =>
    rw [putNamed]
    split
    case isTrue hname =>
      exact @TakesPlace.first new [] nodes n (beq_iff_eq.1 hname) List.not_mem_nil
    case isFalse hname => exact ih.cons fun heq ↦ hname (beq_iff_eq.2 heq)

/-! ## Collapsing -/

theorem keys_pairs (nodes : List Node) :
    Ordered.keys (nodes.map fun n ↦ (n.name, n)) = names nodes := by
  rw [Ordered.keys, List.map_map]
  rfl

theorem names_map_snd {table : List (String × Node)} (h : ∀ entry ∈ table, entry.2.name = entry.1) :
    names (table.map (·.2)) = Ordered.keys table := by
  rw [names, Ordered.keys, List.map_map]
  exact List.map_congr_left h

theorem name_of_mem_ofList {nodes : List Node} {entry : String × Node}
    (h : entry ∈ Ordered.ofList (nodes.map fun n ↦ (n.name, n))) : entry.2.name = entry.1 := by
  obtain ⟨n, -, rfl⟩ := List.mem_map.1 (Ordered.mem_of_mem_ofList h)
  rfl

/-- Every name keeps the place where it stands first. -/
theorem names_collapse (nodes : Forest) : names nodes.collapse = (names nodes).eraseDups := by
  rw [collapse, names_map_snd fun entry ↦ name_of_mem_ofList, Ordered.keys_ofList, keys_pairs]

/-- Under every name stands the last node of it. -/
theorem named?_collapse (nodes : Forest) (name : String) :
    nodes.collapse.named? name = named? nodes.reverse name := by
  have hname : ∀ entry ∈ Ordered.ofList (nodes.map fun n ↦ (n.name, n)),
      ((fun n : Node ↦ n.name == name) ∘ (·.2)) entry = (entry.1 == name) := by
    intro entry hentry
    rw [Function.comp_apply, name_of_mem_ofList hentry]
  calc nodes.collapse.named? name
    _ = Ordered.get? name (Ordered.ofList (nodes.map fun n ↦ (n.name, n))) := by
      rw [collapse, named?, List.find?_map, List.find?_congr hname]
      rfl
    _ = Ordered.get? name (nodes.reverse.map fun n ↦ (n.name, n)) := by
      rw [Ordered.get?_ofList, List.map_reverse]
    _ = named? nodes.reverse name := by
      rw [Ordered.get?, List.find?_map, Option.map_map]
      exact Option.map_id'

theorem nodup_names_collapse (nodes : Forest) : (names nodes.collapse).Nodup := by
  rw [collapse, names_map_snd fun entry ↦ name_of_mem_ofList]
  exact Ordered.nodup_keys_ofList _

theorem mem_of_mem_collapse {nodes : Forest} {n : Node} (h : n ∈ nodes.collapse) : n ∈ nodes := by
  obtain ⟨entry, hentry, rfl⟩ := List.mem_map.1 h
  obtain ⟨m, hm, rfl⟩ := List.mem_map.1 (Ordered.mem_of_mem_ofList hentry)
  exact hm

/-- Siblings of different names stay as they are. -/
theorem collapse_eq_self {nodes : Forest} (h : nodes.names.Nodup) : nodes.collapse = nodes := by
  unfold collapse
  rw [Ordered.ofList_eq_self (by rw [keys_pairs]; exact h), List.map_map]
  exact List.map_id'' (fun _ ↦ rfl) nodes

theorem collapse_collapse (nodes : Forest) : nodes.collapse.collapse = nodes.collapse :=
  collapse_eq_self (nodup_names_collapse nodes)

end Forest

end KeyTree
