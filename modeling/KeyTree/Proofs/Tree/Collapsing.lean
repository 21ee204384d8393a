import KeyTree.Proofs.Tree.Names
import KeyTree.Value.Coercion

/-!
# Dictionaries of any siblings

A dictionary is made of any siblings by keeping one of each name. The names stand where they stand
first, and under each name stands the last node of it, with its identity. This alone says what the
children are. Siblings of different names stay as they are, so a second time changes nothing.
-/

namespace KeyTree

namespace Forest

variable {nodes children others : Forest} {name : String} {n : Node}

/-- A node with no sibling of its name behind it. -/
def IsLastOfName (nodes : Forest) (n : Node) : Prop :=
  ∃ before after, nodes = before ++ n :: after ∧ n.name ∉ names after

theorem IsLastOfName.mem (h : nodes.IsLastOfName n) : n ∈ nodes := by
  obtain ⟨before, after, rfl, -⟩ := h
  exact List.mem_append_right before List.mem_cons_self

/-- From behind, the last node of a name is the first one. -/
theorem named?_reverse_eq_some_iff :
    named? nodes.reverse name = some n ↔ n.name = name ∧ nodes.IsLastOfName n := by
  constructor
  · intro h
    obtain ⟨hname, after, before, hnodes, hafter⟩ := eq_append_of_named? h
    refine ⟨hname, before.reverse, after.reverse, ?_, ?_⟩
    · rw [← List.reverse_reverse nodes, hnodes, List.reverse_append, List.reverse_cons,
        List.append_assoc, List.singleton_append]
    · rw [mem_names_reverse, hname]
      exact hafter
  · rintro ⟨rfl, before, after, rfl, hafter⟩
    rw [List.reverse_append, List.reverse_cons, List.append_assoc, List.singleton_append]
    exact named?_insert n before.reverse (mt mem_names_reverse.1 hafter)

theorem named?_of_mem (hnames : nodes.names.Nodup) (hn : n ∈ nodes) :
    nodes.named? n.name = some n := by
  obtain ⟨before, after, rfl⟩ := List.append_of_mem hn
  rw [names_append, names_cons, List.nodup_append] at hnames
  exact named?_insert n after fun hbefore ↦ hnames.2.2 _ hbefore _ List.mem_cons_self rfl

/-- One node for each name among siblings: the names stand where they stand first, and each has the
last node of it. -/
structure Collapses (nodes children : Forest) : Prop where
  names_eq : children.names = nodes.names.eraseDups
  last : ∀ n ∈ children, nodes.IsLastOfName n

theorem Collapses.map_some_eq (h : Collapses nodes children) :
    children.map some = nodes.names.eraseDups.map (named? nodes.reverse) := by
  rw [← h.names_eq, names, List.map_map]
  apply List.map_congr_left
  intro n hn
  exact (named?_reverse_eq_some_iff.2 ⟨rfl, h.last n hn⟩).symm

/-- Names and last nodes leave nothing open. -/
theorem Collapses.unique (h : Collapses nodes children) (hothers : Collapses nodes others) :
    others = children := by
  apply List.map_injective_iff.2 fun _ _ ↦ Option.some.inj
  rw [hothers.map_some_eq, h.map_some_eq]

theorem collapses_collapse (nodes : Forest) : Collapses nodes nodes.collapse where
  names_eq := names_collapse nodes
  last n hn := by
    have hnamed := named?_of_mem (nodup_names_collapse nodes) hn
    rw [named?_collapse] at hnamed
    exact (named?_reverse_eq_some_iff.1 hnamed).2

end Forest

namespace Coercion

/-- The children of a dictionary that is made of any siblings have different names, in the order in
which these occur first. Under each name stands the last node of it, and nothing else is a child.
A dictionary of such children, or of any siblings of different names, has them as they are. -/
theorem branch_dictionary_spec (nodes : Forest) :
    ∃ children : Forest, branch .dictionary nodes = .branch .dictionary children ∧
      children.names.Nodup ∧ Forest.Collapses nodes children ∧
      (∀ others, Forest.Collapses nodes others → others = children) ∧
      (∀ n ∈ children, n ∈ nodes) ∧
      branch .dictionary children = .branch .dictionary children ∧
      ∀ others : Forest, others.names.Nodup →
        branch .dictionary others = .branch .dictionary others := by
  have hcollapses := nodes.collapses_collapse
  refine ⟨nodes.collapse, rfl, Forest.nodup_names_collapse nodes, hcollapses, ?_, ?_, ?_, ?_⟩
  · intro others hothers
    exact hcollapses.unique hothers
  · intro n hn
    exact (hcollapses.last n hn).mem
  · rw [branch, Forest.collapse_collapse]
  · intro others hothers
    rw [branch, Forest.collapse_eq_self hothers]

/-- Siblings that have one name twice. -/
def repeated : Forest :=
  [⟨"i", "a", .leaf (.text "x")⟩, ⟨"j", "b", .leaf (.text "y")⟩, ⟨"k", "a", .leaf (.text "z")⟩]

/-- The last node of the name stands in the place of the first. -/
theorem branch_dictionary_spec_repeated :
    ∃ children : Forest, branch .dictionary repeated = .branch .dictionary children ∧
      children.map (·.id) = ["k", "j"] ∧ children.names.Nodup ∧
      branch .dictionary children = .branch .dictionary children := by
  obtain ⟨children, hbranch, hnames, -, -, -, -, hdistinct⟩ := branch_dictionary_spec repeated
  refine ⟨children, hbranch, ?_, hnames, hdistinct children hnames⟩
  rw [← (Payload.branch.inj hbranch).2]
  rfl

end Coercion

end KeyTree
