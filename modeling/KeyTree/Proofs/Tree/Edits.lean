import KeyTree.Proofs.Results
import KeyTree.Proofs.Tree.Change
import KeyTree.Tree.Put
import KeyTree.Tree.Scope

/-!
# Edits are changes

Putting a payload at a path and every edit within a scope is a change in one place, if the values
put in hold no nodes of their own. A scope names one place because siblings have different
identities.
-/

namespace KeyTree

/-! ## Values without nodes -/

/-- A raw value that is a node, or that holds one at some depth. -/
inductive Raw.HoldsNode : Raw → Prop
  | node (n : Node) : HoldsNode (.node n)
  | item {items : List Raw} {item : Raw} (hmem : item ∈ items) (h : item.HoldsNode) :
      HoldsNode (.list items)
  | entry {entries : List (Key × Raw)} {entry : Key × Raw} (hmem : entry ∈ entries)
      (h : entry.2.HoldsNode) : HoldsNode (.dictionary entries)

theorem Node.children?_eq_none {n : Node} {value : Leaf} (h : n.payload = .leaf value) :
    n.children? = none := by
  rw [children?, h]
  rfl

theorem Node.children?_eq_some {n : Node} {shape : Shape} {children : Forest}
    (h : n.payload = .branch shape children) : n.children? = some children := by
  rw [children?, h]
  rfl

theorem Node.height_of_children? {n : Node} {children : Forest} (h : n.children? = some children) :
    n.height = Forest.height children + 1 := by
  obtain ⟨id, name, payload⟩ := n
  cases payload with
  | leaf value => cases h
  | branch shape inner =>
    obtain rfl : inner = children := Option.some.inj h
    rw [height]

/-- A payload without children. -/
def Payload.IsBare (payload : Payload Node) : Prop := payload.children?.getD [] = []

theorem Payload.IsBare.hasUniqueNames {payload : Payload Node} (h : payload.IsBare) :
    payload.HasUniqueNames := by
  cases payload with
  | leaf value => exact .leaf value
  | branch shape children =>
    obtain rfl : children = [] := h
    exact hasUniqueNames_branch.2 (Forest.hasUniqueNamesAs_nil shape)

theorem Payload.IsBare.ids_eq_nil {payload : Payload Node} (h : payload.IsBare) :
    payload.ids = [] := by
  cases payload with
  | leaf value => rfl
  | branch shape children =>
    obtain rfl : children = [] := h
    rfl

theorem Coercion.children?_eq_nil {raw : Raw} {children : Forest} (hraw : ¬ raw.HoldsNode)
    (h : Coercion.children? raw = some children) : children = [] := by
  unfold Coercion.children? at h
  split at h
  · exact (Option.some.inj h).symm
  · split at h
    · exact (Option.some.inj h).symm
    · cases h
  · unfold Raw.nodes? at h
    split at h
    · exact (Option.some.inj h).symm
    case h_2 n rest => exact absurd (.item List.mem_cons_self (.node n)) hraw
    · cases h
  · cases h

theorem Coercion.isBare_branch (shape : Shape) : (Coercion.branch shape []).IsBare := by
  cases shape <;> rfl

/-- A raw value without nodes becomes a payload without children. -/
theorem Kind.isBare_of_coerce {kind : Kind} {raw : Raw} {payload : Payload Node}
    (hraw : ¬ raw.HoldsNode) (h : kind.coerce raw = .ok payload) : payload.IsBare := by
  cases kind with
  | text => rw [← Except.ok.inj h]; rfl
  | expression => rw [← Except.ok.inj h]; rfl
  | boolean => rw [← Except.ok.inj h]; rfl
  | number =>
    unfold Kind.coerce at h
    dsimp only at h
    split at h
    · rw [← Except.ok.inj h]; rfl
    · cases h
  | dictionary | list =>
    unfold Kind.coerce at h
    dsimp only at h
    split at h
    case h_1 children hchildren =>
      rw [← Except.ok.inj h, Coercion.children?_eq_nil hraw hchildren]
      exact Coercion.isBare_branch _
    case h_2 => cases h

/-- Where no limit is reached, a payload is the one without limits. -/
theorem Kind.coerce_of_boundedCoerce {room : Nat} {kind : Kind} {raw : Raw} {payload : Payload Node}
    (h : kind.boundedCoerce room raw = .ok payload) : kind.coerce raw = .ok payload := by
  unfold boundedCoerce at h
  split at h
  case h_1 => cases h
  case h_2 => exact eq_ok_of_mapError h

/-- Every value that is refused is written out. -/
theorem Kind.writes_of_coerce_eq_error {kind : Kind} {raw : Raw} {fault : EditFault}
    (h : kind.coerce raw = .error fault) : kind.writes raw = true := by
  rw [writes, h]
  exact Bool.or_true _

/-- A value is refused if it is none of the kind, and can be written out to say so. -/
theorem Kind.boundedCoerce_refused_iff {room : Nat} {kind : Kind} {raw : Raw} :
    (∃ fault, kind.boundedCoerce room raw = .error (.refused fault)) ↔
      (∃ fault, kind.coerce raw = .error fault) ∧ raw.writingFault? room = none := by
  unfold boundedCoerce
  constructor
  · rintro ⟨fault, h⟩
    split at h
    case h_1 => cases h
    case h_2 hfree =>
      obtain ⟨fault', hcoerce, -⟩ := mapError_eq_error_iff.1 h
      rw [if_pos (writes_of_coerce_eq_error hcoerce)] at hfree
      exact ⟨⟨fault', hcoerce⟩, hfree⟩
  · rintro ⟨⟨fault, hcoerce⟩, hfree⟩
    rw [hfree, ite_self, hcoerce]
    exact ⟨fault, rfl⟩

/-- A limit is reached where a value is written out. -/
theorem Kind.boundedCoerce_limit_iff {room : Nat} {kind : Kind} {raw : Raw} {fault : LimitFault} :
    kind.boundedCoerce room raw = .error (.limit fault) ↔
      kind.writes raw = true ∧ raw.writingFault? room = some fault := by
  unfold boundedCoerce
  cases hwrites : kind.writes raw with
  | false =>
    rw [if_neg Bool.false_ne_true]
    refine iff_of_false (fun h ↦ ?_) (fun h ↦ Bool.noConfusion h.1)
    obtain ⟨fault', -, hfault⟩ := mapError_eq_error_iff.1 h
    cases hfault
  | true =>
    rw [if_pos rfl, and_iff_right rfl]
    cases raw.writingFault? room with
    | none =>
      refine iff_of_false (fun h ↦ ?_) nofun
      obtain ⟨fault', -, hfault⟩ := mapError_eq_error_iff.1 h
      cases hfault
    | some fault' =>
      constructor
      · intro h
        rw [ChangeFault.limit.inj (Except.error.inj h)]
      · intro h
        rw [Option.some.inj h]

theorem coerce_of_boundedCoerce {room : Nat} {kindName : String} {raw : Raw}
    {payload : Payload Node} (h : boundedCoerce room kindName raw = .ok payload) :
    coerce kindName raw = .ok payload := by
  unfold boundedCoerce at h
  split at h
  case h_1 kind hkind =>
    rw [coerce, hkind]
    exact Kind.coerce_of_boundedCoerce h
  case h_2 => exact eq_ok_of_mapError h

theorem isBare_of_coerce {kindName : String} {raw : Raw} {payload : Payload Node}
    (hraw : ¬ raw.HoldsNode) (h : coerce kindName raw = .ok payload) : payload.IsBare := by
  unfold coerce at h
  split at h
  · exact Kind.isBare_of_coerce hraw h
  · cases h

namespace Forest

/-! ## Putting at a path -/

theorem chain_spec (supply : Supply) {payload : Payload Node} (hpayload : payload.IsBare)
    (head : String) (tail : List String) :
    (chain supply payload head tail).name = head ∧
      (chain supply payload head tail).payload.HasUniqueNames ∧
      (chain supply payload head tail).ids = supply.issued (tail.length + 1) := by
  induction tail generalizing supply head with
  | nil =>
    refine ⟨rfl, hpayload.hasUniqueNames, ?_⟩
    rw [chain, Node.ids_eq, hpayload.ids_eq_nil]
    rfl
  | cons next tail ih =>
    obtain ⟨hname, hbelow, hids⟩ := ih (supply.skip 1) next
    refine ⟨rfl, ?_, ?_⟩
    · rw [chain, Payload.hasUniqueNames_branch]
      refine ⟨fun _ ↦ List.nodup_singleton _, ?_⟩
      intro m hm
      rw [List.mem_singleton.1 hm]
      exact hbelow
    · rw [chain, List.length_cons, Supply.issued_succ, ← hids]
      simp [Node.ids, ids_cons]

theorem change_append_chain (supply : Supply) {payload : Payload Node} (hpayload : payload.IsBare)
    (shape : Shape) {nodes : Forest} {head : String} (tail : List String)
    (hnone : nodes.named? head = none) :
    Change (supply.issued (tail.length + 1)) shape nodes
      (nodes ++ [chain supply payload head tail]) := by
  obtain ⟨hname, hbelow, hids⟩ := chain_spec supply hpayload head tail
  refine .append _ ?_ hbelow (by rw [hids])
  intro _
  rw [hname]
  exact named?_eq_none_iff.1 hnone

/-- Putting a payload at a path is a change that uses one identity for each segment at most. -/
theorem change_putAlong (supply : Supply) {payload : Payload Node} (hpayload : payload.IsBare)
    (shape : Shape) (nodes : Forest) (head : String) (tail : List String) :
    Change (supply.issued (tail.length + 1)) shape nodes
      (putAlong supply payload nodes head tail).1 := by
  induction tail generalizing supply shape nodes head with
  | nil =>
    unfold putAlong
    cases hnamed : nodes.named? head with
    | none => exact change_append_chain supply hpayload shape [] hnamed
    | some n =>
      dsimp only
      split
      · exact .refl shape nodes
      · obtain ⟨rfl, before, after, rfl, hbefore⟩ := eq_append_of_named? hnamed
        rw [replaceNamed_append _ hbefore]
        refine .replace before after _ rfl hpayload.hasUniqueNames ?_
        rw [Node.ids_eq, hpayload.ids_eq_nil]
        exact Multiset.cons_le_cons _ (Multiset.zero_le _)
  | cons next tail ih =>
    unfold putAlong
    cases hnamed : nodes.named? head with
    | none => exact change_append_chain supply hpayload shape (next :: tail) hnamed
    | some n =>
      dsimp only
      cases hbranch : n.payload with
      | leaf value =>
        rw [Node.children?_eq_none hbranch]
        exact .refl shape nodes
      | branch inner children =>
        rw [Node.children?_eq_some hbranch]
        dsimp only
        split
        · obtain ⟨rfl, before, after, rfl, hbefore⟩ := eq_append_of_named? hnamed
          rw [replaceNamed_append _ hbefore]
          apply Change.inside before after hbranch
          -- The identity set apart for this segment is not used: its container is there.
          apply (ih (supply.skip 1) inner children next).mono
          rw [List.length_cons, Supply.issued_succ supply, ← Multiset.cons_coe]
          exact Multiset.le_cons_self _ _
        · exact .refl shape nodes

/-! ## The place of a scope -/

/-- The shape that holds the siblings within a scope, if it leads to any. -/
def shapeAt? : Shape → Forest → Scope → Option Shape
  | shape, _, [] => some shape
  | _, nodes, id :: rest => match nodes.withId? id with
    | none => none
    | some n => match n.payload with
      | .leaf _ => none
      | .branch inner children => shapeAt? inner children rest

theorem shapeAt?_of_isListAt {shape : Shape} {nodes : Forest} {scope : Scope}
    (h : nodes.isListAt scope = true) : shapeAt? shape nodes scope = some .list := by
  unfold isListAt at h
  induction scope generalizing shape nodes with
  | nil => cases h
  | cons id rest ih =>
    rw [container?] at h
    rw [shapeAt?]
    cases hid : nodes.withId? id with
    | none =>
      rw [hid] at h
      cases h
    | some n =>
      rw [hid] at h
      obtain ⟨nid, name, payload⟩ := n
      cases payload with
      | leaf value => cases h
      | branch inner children =>
        cases rest with
        | nil =>
          cases inner with
          | dictionary => cases h
          | list => rfl
        | cons next rest => exact ih h

/-- Siblings of different identities around the one of an identity. -/
theorem eq_append_of_withId? {nodes : Forest} {id : String} {n : Node} (hids : (ids nodes).Nodup)
    (h : nodes.withId? id = some n) :
    ∃ before after, nodes = before ++ n :: after ∧ n.id = id ∧ (∀ m ∈ before, m.id ≠ id) ∧
      ∀ m ∈ after, m.id ≠ id := by
  unfold withId? at h
  obtain ⟨hid, before, after, rfl, hbefore⟩ := List.find?_eq_some_iff_append.1 h
  rw [beq_iff_eq] at hid
  refine ⟨before, after, rfl, hid, ?_, ?_⟩
  · intro m hm heq
    have hne := hbefore m hm
    rw [heq, beq_self_eq_true] at hne
    cases hne
  · intro m hm heq
    rw [ids_append, ids_cons] at hids
    have hrest := (List.nodup_append.1 (List.nodup_append.1 hids).2.1).2.2
    apply hrest n.id (by rw [Node.ids_eq]; exact List.mem_cons_self) m.id (id_mem_ids hm)
    rw [hid, heq]

theorem nodup_ids_children {before after : List Node} {n : Node} {shape : Shape}
    {children : Forest} (hids : (ids (before ++ n :: after)).Nodup)
    (hpayload : n.payload = .branch shape children) : (ids children).Nodup := by
  rw [ids_append, ids_cons, Node.ids_eq, hpayload] at hids
  have hn := (List.nodup_append.1 (List.nodup_append.1 hids).2.1).1
  exact (List.nodup_cons.1 hn).2

/-- The change of one node on the way along a scope. -/
def tryEnter (f : Nat → Forest → Except ChangeFault Forest) (room : Nat) (id : String)
    (rest : Scope) (n : Node) : Except ChangeFault Node :=
  match n.children? with
  | some children =>
    if n.id == id then n.withChildren <$> tryUpdate f room rest children else .ok n
  | none => .ok n

section

variable {f : Nat → Forest → Except ChangeFault Forest} {room : Nat} {id : String} {rest : Scope}
  {n : Node}

theorem tryUpdate_cons (f : Nat → Forest → Except ChangeFault Forest) (room : Nat) (id : String)
    (rest : Scope) (nodes : Forest) :
    tryUpdate f (room + 1) (id :: rest) nodes = nodes.mapM (tryEnter f room id rest) := rfl

theorem tryEnter_of_ne (h : n.id ≠ id) : tryEnter f room id rest n = .ok n := by
  unfold tryEnter
  split
  · rw [if_neg (by rwa [beq_iff_eq])]
  · rfl

theorem tryEnter_self {children : Forest} (hchildren : n.children? = some children) :
    tryEnter f room n.id rest n = n.withChildren <$> tryUpdate f room rest children := by
  unfold tryEnter
  rw [hchildren]
  exact if_pos (beq_self_eq_true _)

end

/-- A step that leaves siblings of other identities alone replaces one sibling at most. -/
theorem mapM_withId {step : Node → Except ChangeFault Node} {id : String} {nodes changed : Forest}
    (hids : (ids nodes).Nodup) (hother : ∀ n, n.id ≠ id → step n = .ok n)
    (h : nodes.mapM step = .ok changed) :
    changed = nodes ∨ ∃ before n after new, nodes = before ++ n :: after ∧
      changed = before ++ new :: after ∧ nodes.withId? id = some n ∧ n.id = id ∧
      step n = .ok new := by
  cases hid : nodes.withId? id with
  | none =>
    have hself : ∀ m ∈ nodes, step m = .ok m := by
      intro m hm
      apply hother
      intro heq
      exact List.find?_eq_none.1 hid m hm (by rw [heq, beq_self_eq_true])
    rw [mapM_eq_self hself] at h
    exact .inl (Except.ok.inj h).symm
  | some n =>
    obtain ⟨before, after, rfl, hn, hbefore, hafter⟩ := eq_append_of_withId? hids hid
    obtain ⟨new, hnew, rfl⟩ := mapM_insert (fun m hm ↦ hother m (hbefore m hm))
      (fun m hm ↦ hother m (hafter m hm)) h
    exact .inr ⟨before, n, after, new, rfl, rfl, rfl, hn, hnew⟩

/-- What changes the siblings within a scope changes the tree. -/
theorem change_tryUpdate {f : Nat → Forest → Except ChangeFault Forest} {issued : List String}
    {shape : Shape} {room : Nat} {nodes changed : Forest} {scope : Scope}
    (hids : (ids nodes).Nodup)
    (hf : ∀ room inner old new, shapeAt? shape nodes scope = some inner → (ids old).Nodup →
      f room old = .ok new → Change issued inner old new)
    (h : tryUpdate f room scope nodes = .ok changed) : Change issued shape nodes changed := by
  induction room, scope, nodes using tryUpdate.induct generalizing shape changed with
  | case1 => cases h
  | case2 room nodes => exact hf room shape nodes changed rfl hids h
  | case3 room id rest nodes ih =>
    rw [tryUpdate_cons] at h
    rcases mapM_withId hids (fun n hn ↦ tryEnter_of_ne hn) h with rfl |
      ⟨before, n, after, entered, rfl, rfl, hid, hn, hentered⟩
    · exact .refl shape changed
    · cases hpayload : n.payload with
      | leaf value =>
        rw [tryEnter, Node.children?_eq_none hpayload] at hentered
        rw [← Except.ok.inj hentered]
        exact .refl shape _
      | branch inner children =>
        rw [tryEnter, Node.children?_eq_some hpayload] at hentered
        dsimp only at hentered
        rw [if_pos (beq_iff_eq.2 hn)] at hentered
        obtain ⟨new, hinner, rfl⟩ := exists_of_map_eq_ok hentered
        apply Change.inside before after hpayload
        refine ih children (nodup_ids_children hids hpayload) ?_ hinner
        -- The scope leads from the node to what the whole scope leads to from its siblings.
        intro room deeper old changed hdeeper
        apply hf room
        rw [shapeAt?, hid]
        dsimp only
        rw [hpayload]
        exact hdeeper

/-- With room for a whole scope, a change that cannot be refused is not refused within it. -/
theorem tryUpdate_ok (f : Forest → Forest) {room : Nat} {scope : Scope}
    (hroom : scope.length < room) (nodes : Forest) :
    tryUpdate (fun _ old ↦ .ok (f old)) room scope nodes = .ok (update f scope nodes) := by
  obtain ⟨room, rfl⟩ := Nat.exists_eq_succ_of_ne_zero (Nat.ne_zero_of_lt hroom)
  induction scope generalizing room nodes with
  | nil => rfl
  | cons id rest ih =>
    have hrest : rest.length < room := Nat.lt_of_succ_lt_succ hroom
    obtain ⟨room, rfl⟩ := Nat.exists_eq_succ_of_ne_zero (Nat.ne_zero_of_lt hrest)
    rw [tryUpdate_cons, update]
    induction nodes with
    | nil => rfl
    | cons n nodes ihnodes =>
      rw [List.mapM_cons, ihnodes, List.map_cons, tryEnter]
      cases n.children? with
      | none => rfl
      | some children =>
        dsimp only
        split
        · rw [ih children room hrest]
          rfl
        · rfl

theorem change_update {f : Forest → Forest} {issued : List String} {shape : Shape} {nodes : Forest}
    {scope : Scope} (hids : (ids nodes).Nodup)
    (hf : ∀ inner old, shapeAt? shape nodes scope = some inner → Change issued inner old (f old)) :
    Change issued shape nodes (update f scope nodes) := by
  apply change_tryUpdate hids _ (tryUpdate_ok f (Nat.lt_succ_self scope.length) nodes)
  intro _ inner old new hinner _ hnew
  rw [← Except.ok.inj hnew]
  exact hf inner old hinner

/-! ## Edits within a scope -/

theorem ids_eq_of_isBare {supply : Supply} {name : String} {payload : Payload Node}
    (h : payload.IsBare) :
    ((Node.mk supply.id name payload).ids : Multiset String) ≤ supply.issued 1 := by
  rw [Node.ids_eq, h.ids_eq_nil]
  exact le_refl _

theorem change_putNamed {issued : List String} (shape : Shape) (nodes : Forest) {new : Node}
    (hbelow : new.payload.HasUniqueNames) (hids : (new.ids : Multiset String) ≤ issued) :
    Change issued shape nodes (putNamed new nodes) := by
  have hplace := takesPlace_putNamed new nodes
  generalize putNamed new nodes = changed at hplace ⊢
  cases hplace with
  | first hname _ =>
    exact .replace _ _ new hname.symm hbelow (hids.trans (Multiset.le_cons_self _ _))
  | last hnone => exact .append new (fun _ ↦ hnone) hbelow hids

/-- What is added has a new identity and a payload of its kind. -/
theorem exists_of_add {supply : Supply} {root new : Forest} {name kindName : String} {value : Raw}
    {scope : Scope} (h : root.add supply name kindName value scope = .ok new) :
    ∃ payload, coerce kindName value = .ok payload ∧
      ((root.isListAt scope = true ∧ new = update
          (· ++ [⟨supply.id, positionName (root.within scope).length, payload⟩]) scope root) ∨
        (root.isListAt scope = false ∧ Text.isBlankText name = false ∧
          new = update (putNamed ⟨supply.id, name, payload⟩) scope root)) := by
  unfold add at h
  split at h
  case isTrue hlist =>
    obtain ⟨payload, hcoerce, h⟩ := exists_of_bind_eq_ok h
    exact ⟨payload, hcoerce, .inl ⟨hlist, (Except.ok.inj h).symm⟩⟩
  case isFalse hlist =>
    split at h
    case isTrue => cases h
    case isFalse hblank =>
      obtain ⟨payload, hcoerce, h⟩ := exists_of_bind_eq_ok h
      exact ⟨payload, hcoerce, .inr ⟨Bool.not_eq_true _ ▸ hlist, Bool.not_eq_true _ ▸ hblank,
        (Except.ok.inj h).symm⟩⟩

/-- Adding looks at the value, adds without limits, and looks at the way. -/
theorem boundedAdd_eq (supply : Supply) (root : Forest) (name kindName : String) (value : Raw)
    (scope : Scope) :
    root.boundedAdd supply name kindName value scope =
      (if root.isListAt scope || !Text.isBlankText name then
        (boundedCoerce callLimit kindName value).map fun _ ↦ ()
      else .ok ()) >>= fun _ ↦
        (root.add supply name kindName value scope).mapError .refused >>= fun changed ↦
          if fits callLimit scope root then .ok changed else .error (.limit .tooDeep) := by
  unfold boundedAdd
  by_cases hlooked : (root.isListAt scope || !Text.isBlankText name) = true
  · rw [if_pos hlooked, if_pos hlooked]
    cases boundedCoerce callLimit kindName value <;> rfl
  · rw [if_neg hlooked, if_neg hlooked]
    rfl

/-- What is added within the limits is what would be added without them. -/
theorem add_of_boundedAdd {supply : Supply} {root new : Forest} {name kindName : String}
    {value : Raw} {scope : Scope} (h : root.boundedAdd supply name kindName value scope = .ok new) :
    fits callLimit scope root = true ∧ root.add supply name kindName value scope = .ok new := by
  rw [boundedAdd_eq] at h
  obtain ⟨-, -, h⟩ := exists_of_bind_eq_ok h
  obtain ⟨changed, hadd, hfits⟩ := exists_of_bind_eq_ok h
  split at hfits
  case isFalse => cases hfits
  case isTrue hroom =>
    obtain rfl := Except.ok.inj hfits
    exact ⟨hroom, eq_ok_of_mapError hadd⟩

/-- With a value that can be written, and with room, what is added without limits is added. -/
theorem boundedAdd_of_add {supply : Supply} {root new : Forest} {name kindName : String}
    {value : Raw} {scope : Scope} {payload : Payload Node}
    (hvalue : boundedCoerce callLimit kindName value = .ok payload)
    (hroom : fits callLimit scope root = true)
    (h : root.add supply name kindName value scope = .ok new) :
    root.boundedAdd supply name kindName value scope = .ok new := by
  have hlast : (Except.mapError ChangeFault.refused (.ok new) >>= fun changed ↦
      if fits callLimit scope root then Except.ok changed else .error (.limit .tooDeep)) =
        .ok new := if_pos hroom
  rw [boundedAdd_eq, h, hvalue]
  cases root.isListAt scope || !Text.isBlankText name with
  | true => exact hlast
  | false => exact hlast

theorem delete_of_boundedDelete {root new : Forest} {id : String} {scope : Scope}
    (h : root.boundedDelete id scope = .ok new) :
    fits callLimit scope root = true ∧ new = root.delete id scope := by
  unfold boundedDelete boundedUpdate at h
  split at h
  case isTrue hroom => exact ⟨hroom, (Except.ok.inj h).symm⟩
  case isFalse => cases h

/-- Adding a node is a change that uses one identity. -/
theorem change_add {supply : Supply} {root new : Forest} {name kindName : String} {value : Raw}
    {scope : Scope} (hids : (ids root).Nodup) (hvalue : ¬ value.HoldsNode)
    (h : root.add supply name kindName value scope = .ok new) :
    Change (supply.issued 1) .dictionary root new := by
  obtain ⟨payload, hcoerce, h⟩ := exists_of_add h
  have hbare := isBare_of_coerce hvalue hcoerce
  rcases h with ⟨hlist, rfl⟩ | ⟨-, -, rfl⟩
  · apply change_update hids
    -- Nothing is asked of the name, because the scope leads to a list.
    intro inner old hinner
    rw [shapeAt?_of_isListAt hlist] at hinner
    obtain rfl := Option.some.inj hinner
    refine .append _ ?_ hbare.hasUniqueNames (ids_eq_of_isBare hbare)
    intro hshape
    cases hshape
  · apply change_update hids
    intro inner old _
    exact change_putNamed inner old hbare.hasUniqueNames (ids_eq_of_isBare hbare)

/-- The value that an edit gives to one sibling. -/
def tryEdit (id : String) (value : Raw) (room : Nat) (n : Node) : Except ChangeFault Node :=
  if n.id == id then
    if n.isContainer then .error (.refused (.container n.kind n.name))
    else (n.kind.boundedCoerce room value).map fun payload ↦ { n with payload := payload }
  else .ok n

theorem change_editAll {id : String} {value : Raw} {room : Nat} {nodes changed : Forest}
    {shape : Shape} (hids : (ids nodes).Nodup) (hvalue : ¬ value.HoldsNode)
    (h : editAll id value room nodes = .ok changed) : Change [] shape nodes changed := by
  have hother (n : Node) (hne : n.id ≠ id) : tryEdit id value room n = .ok n :=
    if_neg (by rwa [beq_iff_eq])
  change nodes.mapM (tryEdit id value room) = .ok changed at h
  rcases mapM_withId hids hother h with rfl | ⟨before, n, after, edited, rfl, rfl, -, hn, hedited⟩
  · exact .refl shape changed
  · rw [tryEdit, if_pos (beq_iff_eq.2 hn)] at hedited
    split at hedited
    · cases hedited
    · obtain ⟨payload, hcoerce, rfl⟩ := exists_of_map_eq_ok hedited
      have hbare := Kind.isBare_of_coerce hvalue (Kind.coerce_of_boundedCoerce hcoerce)
      refine .replace before after _ rfl hbare.hasUniqueNames ?_
      rw [Node.ids_eq, hbare.ids_eq_nil]
      exact le_refl _

/-- Editing a value is a change that uses no identity. -/
theorem change_edit {root new : Forest} {id : String} {value : Raw} {scope : Scope}
    (hids : (ids root).Nodup) (hvalue : ¬ value.HoldsNode)
    (h : root.edit id value scope = .ok new) : Change [] .dictionary root new := by
  apply change_tryUpdate hids _ h
  intro _ inner old changed _ hold hchanged
  exact change_editAll hold hvalue hchanged

/-- Removing a node is a change that uses no identity. -/
theorem change_delete {root : Forest} {id : String} {scope : Scope} (hids : (ids root).Nodup) :
    Change [] .dictionary root (root.delete id scope) := by
  apply change_update hids
  intro inner old _
  exact .erase List.filter_sublist

end Forest

end KeyTree
