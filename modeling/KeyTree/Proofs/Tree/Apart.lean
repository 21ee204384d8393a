import KeyTree.Proofs.Tree.Scope

/-!
# Siblings of different identities

A scope leads to one place if no two siblings have the same identity, at any depth. The same identity
may well occur in several places of the tree. Edits keep siblings apart, if what they bring in keeps
them apart and every new identity is none that has been there.
-/

namespace KeyTree

/-! ## Identities that are spent -/

/-- An identity that a supply does not give out any more. -/
def Supply.IsSpent (supply : Supply) (id : String) : Prop :=
  ∀ i, supply.next ≤ i → Supply.idOf i ≠ id

theorem Supply.IsSpent.skip {supply : Supply} {id : String} (h : supply.IsSpent id) (count : Nat) :
    (supply.skip count).IsSpent id :=
  fun i hi ↦ h i (Nat.le_of_add_right_le hi)

theorem Supply.not_isSpent_id (supply : Supply) : ¬ supply.IsSpent supply.id :=
  fun h ↦ h supply.next (Nat.le_refl _) rfl

theorem Supply.isSpent_idOf {supply : Supply} {i : Nat} (h : i < supply.next) :
    supply.IsSpent (Supply.idOf i) := by
  intro j hj heq
  obtain rfl := Supply.idOf_injective heq
  exact Nat.not_lt_of_le hj h

theorem Supply.isSpent_issued {supply : Supply} {count : Nat} {id : String}
    (h : id ∈ supply.issued count) : (supply.skip count).IsSpent id := by
  obtain ⟨i, hi, rfl⟩ := Supply.mem_issued.1 h
  exact Supply.isSpent_idOf (Nat.add_lt_add_left hi supply.next)

theorem Supply.isSpent_id (supply : Supply) (count : Nat) :
    (supply.skip (count + 1)).IsSpent supply.id := by
  apply Supply.isSpent_issued
  rw [Supply.issued_succ]
  exact List.mem_cons_self

/-! ## Trees that keep siblings apart -/

/-- Siblings in a payload have different identities at every depth, all of them among some. -/
inductive Payload.IsApart (among : String → Prop) : Payload Node → Prop
  | leaf (value : Leaf) : IsApart among (.leaf value)
  | branch {shape : Shape} {children : Forest} (distinct : (children.map Node.id).Nodup)
      (known : ∀ n ∈ children, among n.id) (below : ∀ n ∈ children, IsApart among n.payload) :
      IsApart among (.branch shape children)

/-- Siblings have different identities, and so have all siblings below them. -/
structure Forest.IsApart (among : String → Prop) (nodes : Forest) : Prop where
  distinct : (nodes.map Node.id).Nodup
  known : ∀ n ∈ nodes, among n.id
  below : ∀ n ∈ nodes, n.payload.IsApart among

variable {among among' : String → Prop} {supply : Supply} {nodes changed children inner : Forest}
  {before after : List Node} {n new : Node} {payload : Payload Node}

theorem Payload.isApart_branch {shape : Shape} :
    (Payload.branch shape children).IsApart among ↔ Forest.IsApart among children := by
  constructor
  · intro h
    cases h with
    | branch distinct known below => exact ⟨distinct, known, below⟩
  · intro h
    exact .branch h.distinct h.known h.below

theorem Payload.IsApart.mono (h : payload.IsApart among) (hmono : ∀ id, among id → among' id) :
    payload.IsApart among' := by
  induction h with
  | leaf value => exact .leaf value
  | branch distinct known _ ih => exact .branch distinct (fun n hn ↦ hmono n.id (known n hn)) ih

theorem Payload.IsBare.isApart (h : payload.IsBare) (among : String → Prop) :
    payload.IsApart among := by
  cases payload with
  | leaf value => exact .leaf value
  | branch shape children =>
    obtain rfl : children = [] := h
    exact .branch List.nodup_nil (List.forall_mem_nil _) (List.forall_mem_nil _)

theorem Node.isApart_of_children? (h : n.payload.IsApart among) (hinner : n.children? = some inner) :
    Forest.IsApart among inner := by
  obtain ⟨id, name, payload⟩ := n
  cases payload with
  | leaf value => cases hinner
  | branch shape children =>
    obtain rfl := Option.some.inj hinner
    exact Payload.isApart_branch.1 h

theorem Node.isApart_withChildren (hinner : n.children? = some inner)
    (h : Forest.IsApart among changed) : (n.withChildren changed).payload.IsApart among := by
  obtain ⟨id, name, payload⟩ := n
  cases payload with
  | leaf value => cases hinner
  | branch shape children => exact Payload.isApart_branch.2 h

namespace Forest

theorem isApart_nil : IsApart among [] :=
  ⟨List.nodup_nil, List.forall_mem_nil _, List.forall_mem_nil _⟩

theorem isApart_singleton (hknown : among n.id) (hbelow : n.payload.IsApart among) :
    IsApart among [n] :=
  ⟨List.nodup_singleton _, List.forall_mem_singleton.2 hknown, List.forall_mem_singleton.2 hbelow⟩

theorem IsApart.mono (h : nodes.IsApart among) (hmono : ∀ id, among id → among' id) :
    nodes.IsApart among' :=
  ⟨h.distinct, fun n hn ↦ hmono n.id (h.known n hn), fun n hn ↦ (h.below n hn).mono hmono⟩

theorem IsApart.sublist {rest : Forest} (h : nodes.IsApart among) (hrest : rest.Sublist nodes) :
    rest.IsApart among :=
  ⟨h.distinct.sublist (hrest.map _), fun n hn ↦ h.known n (hrest.subset hn),
    fun n hn ↦ h.below n (hrest.subset hn)⟩

/-- A node that keeps its identity does not come near another one. -/
theorem IsApart.insert (h : IsApart among (before ++ n :: after)) (hid : new.id = n.id)
    (hbelow : new.payload.IsApart among) : IsApart among (before ++ new :: after) := by
  have hmem (m : Node) (hm : m ∈ before ++ new :: after) :
      m = new ∨ m ∈ before ++ n :: after := by
    rcases List.mem_append.1 hm with hm | hm
    · exact .inr (List.mem_append_left _ hm)
    · rcases List.mem_cons.1 hm with rfl | hm
      · exact .inl rfl
      · exact .inr (List.mem_append_right _ (List.mem_cons_of_mem n hm))
  constructor
  · have hdistinct := h.distinct
    rw [List.map_append, List.map_cons] at hdistinct ⊢
    rwa [hid]
  · intro m hm
    rcases hmem m hm with rfl | hm
    · rw [hid]
      exact h.known n (List.mem_append_right _ List.mem_cons_self)
    · exact h.known m hm
  · intro m hm
    rcases hmem m hm with rfl | hm
    · exact hbelow
    · exact h.below m hm

/-- A new identity is none of those that have been there. -/
theorem IsApart.add_new (h : nodes.IsApart supply.IsSpent) (hid : new.id = supply.id)
    {count : Nat} (hbelow : new.payload.IsApart (supply.skip (count + 1)).IsSpent)
    (hperm : changed.Perm (new :: nodes)) : changed.IsApart (supply.skip (count + 1)).IsSpent := by
  have hspent (id : String) (hid : supply.IsSpent id) : (supply.skip (count + 1)).IsSpent id :=
    hid.skip (count + 1)
  constructor
  · rw [(hperm.map _).nodup_iff, List.map_cons, List.nodup_cons]
    refine ⟨fun hmem ↦ ?_, h.distinct⟩
    obtain ⟨m, hm, heq⟩ := List.mem_map.1 hmem
    apply supply.not_isSpent_id
    rw [← hid, ← heq]
    exact h.known m hm
  · intro m hm
    rcases List.mem_cons.1 (hperm.subset hm) with rfl | hm
    · rw [hid]
      exact supply.isSpent_id count
    · exact hspent m.id (h.known m hm)
  · intro m hm
    rcases List.mem_cons.1 (hperm.subset hm) with rfl | hm
    · exact hbelow
    · exact (h.below m hm).mono hspent

/-- Nodes that keep their identities, whatever becomes of what they hold. -/
theorem IsApart.rebuilt (h : nodes.IsApart among) (hmono : ∀ id, among id → among' id)
    (hall : List.Forall₂ (fun n m ↦ m.id = n.id ∧
      (n.payload.IsApart among → m.payload.IsApart among')) nodes changed) :
    changed.IsApart among' := by
  have hids : changed.map Node.id = nodes.map Node.id := by
    clear h
    induction hall with
    | nil => rfl
    | cons hnode _ ih => rw [List.map_cons, List.map_cons, hnode.1, ih]
  have hmem (m : Node) (hm : m ∈ changed) : ∃ n ∈ nodes, m.id = n.id ∧
      (n.payload.IsApart among → m.payload.IsApart among') := by
    clear h hids
    induction hall with
    | nil => cases hm
    | @cons n m' ns ms hnode _ ih =>
      rcases List.mem_cons.1 hm with rfl | hm
      · exact ⟨n, List.mem_cons_self, hnode⟩
      · obtain ⟨k, hk, hkm⟩ := ih hm
        exact ⟨k, List.mem_cons_of_mem n hk, hkm⟩
  constructor
  · rw [hids]
    exact h.distinct
  · intro m hm
    obtain ⟨n, hn, hid, -⟩ := hmem m hm
    rw [hid]
    exact hmono n.id (h.known n hn)
  · intro m hm
    obtain ⟨n, hn, -, hbelow⟩ := hmem m hm
    exact hbelow (h.below n hn)

mutual

/-- Nodes that are all different are apart from their siblings. -/
theorem isApart_payload_of_nodup (n : Node) (hids : n.ids.Nodup)
    (hknown : ∀ id ∈ n.ids, among id) : n.payload.IsApart among := by
  match n with
  | ⟨id, name, .leaf value⟩ => exact .leaf value
  | ⟨id, name, .branch shape children⟩ =>
    rw [Node.ids] at hids hknown
    exact Payload.isApart_branch.2 (isApart_of_nodup children (List.nodup_cons.1 hids).2
      (List.forall_mem_cons.1 hknown).2)

theorem isApart_of_nodup (nodes : List Node) (hids : (ids nodes).Nodup)
    (hknown : ∀ id ∈ ids nodes, among id) : IsApart among nodes := by
  match nodes with
  | [] => exact isApart_nil
  | n :: nodes =>
    rw [ids_cons] at hids hknown
    obtain ⟨hnode, hrest, hdisjoint⟩ := List.nodup_append.1 hids
    have hn := isApart_payload_of_nodup n hnode fun id hid ↦ hknown id (List.mem_append_left _ hid)
    have hnodes := isApart_of_nodup nodes hrest fun id hid ↦
      hknown id (List.mem_append_right _ hid)
    have hself : n.id ∈ n.ids := by
      rw [Node.ids_eq]
      exact List.mem_cons_self
    refine ⟨?_, ?_, ?_⟩
    · rw [List.map_cons, List.nodup_cons]
      refine ⟨fun hmem ↦ ?_, hnodes.distinct⟩
      obtain ⟨m, hm, heq⟩ := List.mem_map.1 hmem
      exact hdisjoint n.id hself m.id (id_mem_ids hm) heq.symm
    · exact List.forall_mem_cons.2 ⟨hknown n.id (List.mem_append_left _ hself), hnodes.known⟩
    · exact List.forall_mem_cons.2 ⟨hn, hnodes.below⟩

end

theorem IsIdentified.isApart (h : nodes.IsIdentified supply) : nodes.IsApart supply.IsSpent :=
  isApart_of_nodup nodes h.nodup fun _ hid i hi heq ↦ h.fresh i hi (heq ▸ hid)

theorem isApart_of_ids {count : Nat} (h : ids nodes = supply.issued count) :
    nodes.IsApart (supply.skip count).IsSpent := by
  apply isApart_of_nodup nodes
  · rw [h]
    exact supply.nodup_issued count
  · rw [h]
    exact fun id ↦ Supply.isSpent_issued

/-! ## Where a scope leads -/

theorem reached_of_forall_ne {id : String} (rest : Scope) (h : ∀ n ∈ nodes, n.id ≠ id) :
    nodes.reached (id :: rest) = [] := by
  rw [reached_cons, List.flatMap_eq_nil_iff]
  exact fun n hn ↦ reachedIn_of_ne rest (h n hn)

/-- Among siblings of different identities, writing reaches what reading finds. -/
theorem IsApart.reached_eq (h : nodes.IsApart among) (scope : Scope) :
    nodes.reached scope = (nodes.within? scope).toList := by
  induction scope generalizing nodes with
  | nil => rfl
  | cons id rest ih =>
    rw [within?]
    cases hid : nodes.withId? id with
    | none =>
      apply reached_of_forall_ne
      intro n hn heq
      exact List.find?_eq_none.1 hid n hn (beq_iff_eq.2 heq)
    | some n =>
      have hn := id_of_withId? hid
      unfold withId? at hid
      obtain ⟨-, before, after, rfl, -⟩ := List.find?_eq_some_iff_append.1 hid
      have hdistinct := h.distinct
      rw [List.map_append, List.map_cons, List.nodup_append, List.nodup_cons] at hdistinct
      obtain ⟨-, ⟨hafter, -⟩, hbefore⟩ := hdistinct
      have hbefore' : ∀ m ∈ before, m.id ≠ n.id := fun m hm heq ↦
        hbefore m.id (List.mem_map_of_mem hm) n.id List.mem_cons_self heq
      have hnone : reached after (n.id :: rest) = [] := by
        apply reached_of_forall_ne
        intro m hm heq
        exact hafter (heq ▸ List.mem_map_of_mem hm)
      subst hn
      cases hchildren : n.children? with
      | none =>
        -- Reading stops at this leaf. Writing passes it by, and finds no other of its identity.
        have hskip : before.flatMap (reachedIn n.id rest) = [] :=
          List.flatMap_eq_nil_iff.2 fun m hm ↦ reachedIn_of_ne rest (hbefore' m hm)
        rw [reached_cons] at hnone
        rw [reached_cons, List.flatMap_append, List.flatMap_cons, hskip, hnone,
          reachedIn_leaf rest hchildren, Option.bind_some, hchildren]
        rfl
      | some children =>
        have hn := h.below n (List.mem_append_right _ List.mem_cons_self)
        rw [reached_append rest hbefore' hchildren, hnone, List.append_nil, Option.bind_some,
          hchildren, Option.bind_some]
        exact ih (Node.isApart_of_children? hn hchildren)

/-! ## Putting at a path -/

theorem isApart_chain (supply : Supply) (hpayload : payload.IsApart supply.IsSpent) (head : String)
    (tail : List String) : (chain supply payload head tail).id = supply.id ∧
      (chain supply payload head tail).payload.IsApart
        (supply.skip (tail.length + 1)).IsSpent := by
  induction tail generalizing supply head with
  | nil => exact ⟨rfl, hpayload.mono fun id hid ↦ hid.skip 1⟩
  | cons next tail ih =>
    obtain ⟨hid, hbelow⟩ := ih (supply.skip 1) (hpayload.mono fun id hid ↦ hid.skip 1) next
    rw [Supply.skip_skip, Nat.add_comm 1] at hbelow
    refine ⟨rfl, Payload.isApart_branch.2 (isApart_singleton ?_ hbelow)⟩
    have hspent := (supply.skip 1).isSpent_id tail.length
    rw [Supply.skip_skip, Nat.add_comm 1] at hspent
    rw [hid]
    exact hspent

theorem IsApart.append_chain (h : nodes.IsApart supply.IsSpent)
    (hpayload : payload.IsApart supply.IsSpent) (head : String) (tail : List String) :
    IsApart (supply.skip (tail.length + 1)).IsSpent
      (nodes ++ [chain supply payload head tail]) := by
  obtain ⟨hid, hbelow⟩ := isApart_chain supply hpayload head tail
  exact h.add_new hid hbelow (List.perm_append_singleton _ nodes)

theorem IsApart.putAlong (h : nodes.IsApart supply.IsSpent)
    (hpayload : payload.IsApart supply.IsSpent) (head : String) (tail : List String) :
    (putAlong supply payload nodes head tail).1.IsApart (supply.skip (tail.length + 1)).IsSpent := by
  induction tail generalizing supply nodes head with
  | nil =>
    have hspent (id : String) (hid : supply.IsSpent id) : (supply.skip 1).IsSpent id := hid.skip 1
    unfold Forest.putAlong
    cases hnamed : nodes.named? head with
    | none => exact h.append_chain hpayload head []
    | some n =>
      dsimp only
      split
      · exact h.mono hspent
      · obtain ⟨rfl, before, after, rfl, hbefore⟩ := eq_append_of_named? hnamed
        rw [replaceNamed_append _ hbefore]
        exact (h.mono hspent).insert rfl (hpayload.mono hspent)
  | cons next tail ih =>
    have hspent (id : String) (hid : supply.IsSpent id) :
        (supply.skip (tail.length + 1 + 1)).IsSpent id := hid.skip _
    unfold Forest.putAlong
    cases hnamed : nodes.named? head with
    | none => exact h.append_chain hpayload head (next :: tail)
    | some n =>
      dsimp only
      cases hchildren : n.children? with
      | none => exact h.mono hspent
      | some children =>
        dsimp only
        split
        case isTrue =>
          obtain ⟨rfl, before, after, rfl, hbefore⟩ := eq_append_of_named? hnamed
          have hn := h.below n (List.mem_append_right _ List.mem_cons_self)
          have hinner := (Node.isApart_of_children? hn hchildren).mono
            fun id hid ↦ Supply.IsSpent.skip hid 1
          have hput := ih hinner (hpayload.mono fun id hid ↦ hid.skip 1) next
          rw [Supply.skip_skip, Nat.add_comm 1] at hput
          rw [replaceNamed_append _ hbefore]
          exact (h.mono hspent).insert rfl (Node.isApart_withChildren hchildren hput)
        case isFalse => exact h.mono hspent

/-! ## Edits within a scope -/

theorem IsApart.update {f : Forest → Forest} {scope : Scope} (h : nodes.IsApart among)
    (hmono : ∀ id, among id → among' id)
    (hf : ∀ old : Forest, old.IsApart among → (f old).IsApart among') :
    (update f scope nodes).IsApart among' := by
  induction scope generalizing nodes with
  | nil => exact hf nodes h
  | cons id rest ih =>
    rw [update_cons]
    refine h.rebuilt hmono ?_
    rw [List.forall₂_map_right_iff, List.forall₂_same]
    intro n hn
    refine ⟨(enter_continues f id rest n).1, fun hbelow ↦ ?_⟩
    cases hchildren : n.children? with
    | none =>
      rw [enter_leaf rest hchildren]
      exact hbelow.mono hmono
    | some children =>
      by_cases hid : n.id = id
      · subst hid
        rw [enter_self rest hchildren]
        exact Node.isApart_withChildren hchildren (ih (Node.isApart_of_children? hbelow hchildren))
      · rw [enter_of_ne rest hid]
        exact hbelow.mono hmono

theorem IsApart.putNamed (h : nodes.IsApart supply.IsSpent) (hid : new.id = supply.id)
    (hbelow : new.payload.IsApart supply.IsSpent) :
    IsApart (supply.skip 1).IsSpent (putNamed new nodes) := by
  have hbelow' := hbelow.mono fun id hid ↦ Supply.IsSpent.skip hid 1
  have hplace := takesPlace_putNamed new nodes
  generalize Forest.putNamed new nodes = changed at hplace ⊢
  cases hplace with
  | @first before after n _ _ =>
    have hrest := h.sublist ((List.sublist_cons_self n after).append_left before)
    exact hrest.add_new hid hbelow' List.perm_middle
  | last _ => exact h.add_new hid hbelow' (List.perm_append_singleton _ nodes)

theorem IsApart.add {root : Forest} {name kindName : String} {value : Raw} {scope : Scope}
    (h : root.IsApart supply.IsSpent)
    (hvalue : ∀ payload, coerce kindName value = .ok payload → payload.IsApart supply.IsSpent)
    (hadd : root.add supply name kindName value scope = .ok changed) :
    changed.IsApart (supply.skip 1).IsSpent := by
  have hspent (id : String) (hid : supply.IsSpent id) : (supply.skip 1).IsSpent id := hid.skip 1
  obtain ⟨payload, hcoerce, ⟨-, rfl⟩ | ⟨-, -, rfl⟩⟩ := exists_of_add hadd
  · refine h.update hspent fun old hold ↦ ?_
    exact hold.add_new rfl ((hvalue payload hcoerce).mono hspent) (List.perm_append_singleton _ old)
  · exact h.update hspent fun old hold ↦ hold.putNamed rfl (hvalue payload hcoerce)

theorem IsApart.edit {root : Forest} {id : String} {value : Raw} {scope : Scope}
    (h : root.IsApart among) (hedit : root.edit id value scope = .ok changed) :
    changed.IsApart among := by
  rw [update_of_tryUpdate hedit]
  refine h.update (fun _ hid ↦ hid) fun old hold ↦ ?_
  cases hall : editAll id value (callLimit - scope.length - 1) old with
  | error fault => exact hold
  | ok new =>
    change old.mapM (tryEdit id value _) = .ok new at hall
    refine hold.rebuilt (fun _ hid ↦ hid) ((forall₂_of_mapM hall).imp fun n m hm ↦ ?_)
    rcases eq_or_leaf_of_tryEdit hm with rfl | ⟨_, leaf, _, rfl⟩
    · exact ⟨rfl, fun hbelow ↦ hbelow⟩
    · exact ⟨rfl, fun _ ↦ .leaf leaf⟩

theorem IsApart.delete {root : Forest} (h : root.IsApart among) (id : String) (scope : Scope) :
    (root.delete id scope).IsApart among :=
  h.update (fun _ hid ↦ hid) fun _ hold ↦ hold.sublist List.filter_sublist

end Forest

end KeyTree
