import KeyTree.Proofs.Tree.Identity
import Mathlib.Algebra.Order.Group.Multiset
import Mathlib.Data.List.Flatten

/-!
# Changes of a tree

All edits of a tree are changes of the siblings in one place: a node comes last, takes the place of
another, goes away, or has its children changed. What such a change cannot break, no edit breaks.
-/

namespace KeyTree.Forest

/--
A change of siblings that are held in a shape. Of the identities below, those of `issued` are the
only ones that it can put into the tree.
-/
inductive Change (issued : List String) : Shape → Forest → Forest → Prop
  | refl (shape : Shape) (nodes : Forest) : Change issued shape nodes nodes
  /-- A dictionary has no other node of the name. -/
  | append {shape : Shape} {nodes : Forest} (new : Node)
      (hname : shape = .dictionary → new.name ∉ names nodes)
      (hbelow : new.payload.HasUniqueNames) (hids : (new.ids : Multiset String) ≤ issued) :
      Change issued shape nodes (nodes ++ [new])
  | replace {shape : Shape} (before after : List Node) {n : Node} (new : Node)
      (hname : new.name = n.name) (hbelow : new.payload.HasUniqueNames)
      (hids : (new.ids : Multiset String) ≤ n.id ::ₘ issued) :
      Change issued shape (before ++ n :: after) (before ++ new :: after)
  | erase {shape : Shape} {nodes rest : Forest} (h : rest.Sublist nodes) :
      Change issued shape nodes rest
  | inside {shape inner : Shape} (before after : List Node) {n : Node} {children changed : Forest}
      (hpayload : n.payload = .branch inner children)
      (hchange : Change issued inner children changed) :
      Change issued shape (before ++ n :: after) (before ++ n.withChildren changed :: after)

theorem Change.mono {issued more : List String} {shape : Shape} {old new : Forest}
    (h : Change issued shape old new) (hle : (issued : Multiset String) ≤ more) :
    Change more shape old new := by
  induction h with
  | refl shape nodes => exact .refl shape nodes
  | append new hname hbelow hids => exact .append new hname hbelow (hids.trans hle)
  | replace before after new hname hbelow hids =>
    exact .replace before after new hname hbelow (hids.trans (Multiset.cons_le_cons _ hle))
  | erase hsublist => exact .erase hsublist
  | inside before after hpayload _ ih => exact .inside before after hpayload ih

/-! ## Names -/

theorem names_insert {before after : List Node} {n new : Node} (h : new.name = n.name) :
    names (before ++ new :: after) = names (before ++ n :: after) := by
  rw [names_append, names_append, names_cons, names_cons, h]

theorem hasUniqueNamesAs_insert {shape : Shape} {before after : List Node} {n new : Node}
    (h : HasUniqueNamesAs shape (before ++ n :: after)) (hname : new.name = n.name)
    (hbelow : new.payload.HasUniqueNames) :
    HasUniqueNamesAs shape (before ++ new :: after) := by
  refine ⟨(Shape.admits_congr (names_insert hname)).2 h.1, ?_⟩
  intro m hm
  rcases List.mem_append.1 hm with hm | hm
  · exact h.2 m (List.mem_append_left _ hm)
  · rcases List.mem_cons.1 hm with rfl | hm
    · exact hbelow
    · exact h.2 m (List.mem_append_right _ (List.mem_cons_of_mem n hm))

/-- A change keeps the names apart. -/
theorem Change.hasUniqueNamesAs {issued : List String} {shape : Shape} {old new : Forest}
    (h : Change issued shape old new) (hold : HasUniqueNamesAs shape old) :
    HasUniqueNamesAs shape new := by
  induction h with
  | refl => exact hold
  | append new hname hbelow hids =>
    refine ⟨?_, ?_⟩
    · intro hshape
      rw [names_append, List.nodup_append]
      refine ⟨hold.1 hshape, List.nodup_singleton new.name, ?_⟩
      rintro name hmem _ hnew rfl
      rw [names_cons, names_nil, List.mem_singleton] at hnew
      exact hname hshape (hnew ▸ hmem)
    · intro m hm
      rcases List.mem_append.1 hm with hm | hm
      · exact hold.2 m hm
      · rw [List.mem_singleton.1 hm]
        exact hbelow
  | replace before after new hname hbelow hids => exact hasUniqueNamesAs_insert hold hname hbelow
  | erase hsublist =>
    refine ⟨?_, fun m hm ↦ hold.2 m (hsublist.subset hm)⟩
    intro hshape
    exact (hold.1 hshape).sublist (hsublist.map _)
  | @inside shape inner before after n children changed hpayload hchange ih =>
    have hchildren := hold.2 n (List.mem_append_right _ List.mem_cons_self)
    rw [hpayload, Payload.hasUniqueNames_branch] at hchildren
    have hchanged : (n.withChildren changed).payload.HasUniqueNames := by
      rw [Node.withChildren, hpayload]
      exact Payload.hasUniqueNames_branch.2 (ih hchildren)
    exact hasUniqueNamesAs_insert hold rfl hchanged

/-! ## Identities -/

theorem coe_ids_insert (before after : List Node) (n : Node) :
    (ids (before ++ n :: after) : Multiset String) = n.ids + (ids before + ids after) := by
  rw [ids_append, ids_cons, ← Multiset.coe_add, ← Multiset.coe_add, add_left_comm]

/-- A change puts no identities into a tree but those issued for it. -/
theorem Change.ids_le {issued : List String} {shape : Shape} {old new : Forest}
    (h : Change issued shape old new) :
    (ids new : Multiset String) ≤ (ids old : Multiset String) + issued := by
  induction h with
  | refl => exact Multiset.le_add_right _ _
  | append new hname hbelow hids =>
    rw [ids_append, ids_cons, ids_nil, List.append_nil, ← Multiset.coe_add]
    exact add_le_add_right hids _
  | @replace shape before after n new hname hbelow hids =>
    rw [coe_ids_insert, coe_ids_insert, add_right_comm]
    apply add_le_add_left
    calc
      (new.ids : Multiset String) ≤ n.id ::ₘ issued := hids
      _ ≤ n.id ::ₘ (n.payload.ids + issued) :=
        Multiset.cons_le_cons _ (Multiset.le_add_left _ _)
      _ = n.ids + issued := by rw [Node.ids_eq, ← Multiset.cons_coe, Multiset.cons_add]
  | @erase shape nodes rest hsublist =>
    have hids : (ids rest).Sublist (ids nodes) := by
      rw [ids_eq_flatMap, ids_eq_flatMap]
      exact hsublist.flatMap _
    exact (Multiset.coe_le.2 hids.subperm).trans (Multiset.le_add_right _ _)
  | @inside shape inner before after n children changed hpayload hchange ih =>
    have hnew : ((n.withChildren changed).ids : Multiset String) = n.id ::ₘ (ids changed) := by
      rw [Node.ids_eq, Node.withChildren, hpayload]
      rfl
    have hold : (n.ids : Multiset String) = n.id ::ₘ (ids children) := by
      rw [Node.ids_eq, hpayload]
      rfl
    rw [coe_ids_insert, coe_ids_insert, add_right_comm, hnew, hold]
    apply add_le_add_left
    rw [Multiset.cons_add]
    exact Multiset.cons_le_cons _ ih

end KeyTree.Forest
