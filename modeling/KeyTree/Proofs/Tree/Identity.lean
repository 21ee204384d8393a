import KeyTree.Proofs.Number.Digits
import KeyTree.Proofs.Tree.Names
import KeyTree.Tree.Supply
import Mathlib.Data.Multiset.UnionInter

/-!
# Identities

No identity is to occur twice in a tree, nor any that the supply has still to give out. Both hold
after a change if the tree has no identities but those it had and those that the supply gave out for
the change, each at most as often.
-/

namespace KeyTree

/-! ## Identities of a supply -/

namespace Supply

/-- The identities that a supply gives out next. -/
def issued (supply : Supply) (count : Nat) : List String :=
  (List.range count).map fun i ↦ idOf (supply.next + i)

theorem issued_add (supply : Supply) (count more : Nat) :
    supply.issued (count + more) = supply.issued count ++ (supply.skip count).issued more := by
  simp only [issued, skip, List.range_add, List.map_append, List.map_map, Function.comp_def,
    Nat.add_assoc]

theorem issued_one (supply : Supply) : supply.issued 1 = [supply.id] := rfl

theorem issued_succ (supply : Supply) (count : Nat) :
    supply.issued (count + 1) = supply.id :: (supply.skip 1).issued count := by
  rw [Nat.add_comm, issued_add, issued_one, List.singleton_append]

theorem mem_issued {supply : Supply} {count : Nat} {id : String} :
    id ∈ supply.issued count ↔ ∃ i < count, id = idOf (supply.next + i) := by
  simp only [issued, List.mem_map, List.mem_range, eq_comm]

theorem nodup_issued (supply : Supply) (count : Nat) : (supply.issued count).Nodup := by
  apply List.Nodup.map _ List.nodup_range
  intro i j h
  exact Nat.add_left_cancel (idOf_injective h)

@[simp]
theorem skip_zero (supply : Supply) : supply.skip 0 = supply := rfl

theorem skip_skip (supply : Supply) (count more : Nat) :
    (supply.skip count).skip more = supply.skip (count + more) := by
  rw [skip, skip, skip, Nat.add_assoc]

end Supply

/-! ## Identities of a tree -/

/-- The identities below a node. -/
def Payload.ids : Payload Node → List String
  | .leaf _ => []
  | .branch _ children => Forest.ids children

theorem Node.ids_eq (n : Node) : n.ids = n.id :: n.payload.ids := by
  obtain ⟨id, name, payload⟩ := n
  cases payload <;> rfl

namespace Forest

@[simp]
theorem ids_nil : ids [] = [] := rfl

theorem ids_cons (n : Node) (nodes : List Node) : ids (n :: nodes) = n.ids ++ ids nodes := rfl

theorem ids_append (left right : List Node) : ids (left ++ right) = ids left ++ ids right := by
  induction left with
  | nil => rfl
  | cons n left ih => rw [List.cons_append, ids_cons, ids_cons, ih, List.append_assoc]

theorem ids_eq_flatMap (nodes : List Node) : ids nodes = nodes.flatMap Node.ids := by
  induction nodes with
  | nil => rfl
  | cons n nodes ih => rw [ids_cons, ih, List.flatMap_cons]

theorem mem_ids {nodes : Forest} {id : String} :
    id ∈ ids nodes ↔ ∃ n ∈ nodes, id = n.id ∨ id ∈ n.payload.ids := by
  simp only [ids_eq_flatMap, List.mem_flatMap, Node.ids_eq, List.mem_cons]

theorem id_mem_ids {nodes : Forest} {n : Node} (h : n ∈ nodes) : n.id ∈ ids nodes :=
  mem_ids.2 ⟨n, h, .inl rfl⟩

/-- The nodes of a tree have different identities, and the supply gives out none of them again. -/
structure IsIdentified (root : Forest) (supply : Supply) : Prop where
  nodup : (ids root).Nodup
  fresh : ∀ i, supply.next ≤ i → Supply.idOf i ∉ ids root

/-- A tree keeps its identities apart if none is added but new ones. -/
theorem IsIdentified.of_le {root root' : Forest} {supply : Supply} {count : Nat}
    (h : root.IsIdentified supply)
    (hle : (ids root' : Multiset String) ≤ (ids root : Multiset String) + supply.issued count) :
    root'.IsIdentified (supply.skip count) := by
  constructor
  · rw [← Multiset.coe_nodup]
    apply Multiset.nodup_of_le hle
    rw [Multiset.coe_add, Multiset.coe_nodup, List.nodup_append]
    refine ⟨h.nodup, supply.nodup_issued count, ?_⟩
    rintro id hid _ hnew rfl
    obtain ⟨i, -, rfl⟩ := Supply.mem_issued.1 hnew
    exact h.fresh _ (Nat.le_add_right _ _) hid
  · intro i hi hmem
    have hnext : supply.next + count ≤ i := hi
    have hold : Supply.idOf i ∈ (ids root : Multiset String) + supply.issued count :=
      Multiset.mem_of_le hle (Multiset.mem_coe.2 hmem)
    rw [Multiset.coe_add, Multiset.mem_coe, List.mem_append] at hold
    rcases hold with hold | hnew
    · exact h.fresh i (by omega) hold
    · obtain ⟨j, hj, heq⟩ := Supply.mem_issued.1 hnew
      have := Supply.idOf_injective heq
      omega

end Forest

/-! ## Labels -/

namespace Supply

mutual

/-- Labelling gives a node new identities and keeps everything else. -/
theorem label_spec (supply : Supply) (n : Node) :
    (label supply n).1.ids = supply.issued n.ids.length ∧
      (label supply n).2 = supply.skip n.ids.length ∧ (label supply n).1.name = n.name ∧
      ((label supply n).1.payload.HasUniqueNames ↔ n.payload.HasUniqueNames) := by
  match n with
  | ⟨id, name, .leaf value⟩ =>
    exact ⟨rfl, rfl, rfl, Iff.rfl⟩
  | ⟨id, name, .branch shape children⟩ =>
    obtain ⟨hids, hsupply, hnames, hbelow⟩ := labelAll_spec (supply.skip 1) children
    refine ⟨?_, ?_, rfl, ?_⟩
    · simp only [label, Node.ids, hids, List.length_cons, issued_succ]
    · simp only [label, Node.ids, hsupply, List.length_cons, skip_skip, Nat.add_comm]
    · simp only [label, Payload.hasUniqueNames_branch, Forest.HasUniqueNamesAs, hbelow]
      exact and_congr_left fun _ ↦ Shape.admits_congr hnames

theorem labelAll_spec (supply : Supply) (nodes : List Node) :
    Forest.ids (labelAll supply nodes).1 = supply.issued (Forest.ids nodes).length ∧
      (labelAll supply nodes).2 = supply.skip (Forest.ids nodes).length ∧
      Forest.names (labelAll supply nodes).1 = Forest.names nodes ∧
      ((∀ n ∈ (labelAll supply nodes).1, n.payload.HasUniqueNames) ↔
        ∀ n ∈ nodes, n.payload.HasUniqueNames) := by
  match nodes with
  | [] => exact ⟨rfl, rfl, rfl, Iff.rfl⟩
  | n :: nodes =>
    obtain ⟨hid, hnext, hname, hpayload⟩ := label_spec supply n
    obtain ⟨hids, hsupply, hnames, hbelow⟩ := labelAll_spec (label supply n).2 nodes
    simp only [labelAll]
    refine ⟨?_, ?_, ?_, ?_⟩
    · rw [Forest.ids_cons, Forest.ids_cons, hid, hids, hnext, List.length_append, issued_add]
    · rw [hsupply, hnext, Forest.ids_cons, List.length_append, skip_skip]
    · rw [Forest.names_cons, Forest.names_cons, hname, hnames]
    · rw [List.forall_mem_cons, List.forall_mem_cons, hpayload, hbelow]

end

/-- Labelling keeps names different, and makes none different. -/
theorem hasUniqueNames_labelAll (supply : Supply) (root : Forest) :
    Forest.HasUniqueNames (labelAll supply root).1 ↔ root.HasUniqueNames := by
  obtain ⟨-, -, hnames, hbelow⟩ := labelAll_spec supply root
  rw [Forest.HasUniqueNames, Forest.HasUniqueNamesAs, hbelow]
  exact and_congr_left fun _ ↦ Shape.admits_congr hnames

end Supply

end KeyTree
