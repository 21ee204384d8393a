import KeyTree.Proofs.Document.Record
import KeyTree.Proofs.Tree.Ways

/-!
# What a new value and a removal leave alone

A new value changes the value of one leaf, and a removal takes one node away with all that is below
it. Everything else stays, with its identity, its name and its place, and a scope that leads nowhere
or an identity that is not there leaves the tree as it is.
-/

namespace KeyTree

/-! ## Trees without their values -/

/-- A leaf of the same kind, and the same one for each kind. -/
def Leaf.blank : Leaf → Leaf
  | text _ => text ""
  | number _ => number 0
  | boolean _ => boolean false
  | expression _ => expression ""

theorem Leaf.blank_eq_iff {v w : Leaf} : v.blank = w.blank ↔ v.kind = w.kind := by
  cases v <;> cases w <;> simp [blank, kind]

theorem Node.mapLeaves_withChildren (f : Leaf → Leaf) (n : Node) (children : List Node) :
    (n.withChildren children).mapLeaves f =
      (n.mapLeaves f).withChildren (Forest.mapLeaves f children) := by
  obtain ⟨id, name, payload⟩ := n
  cases payload <;> rfl

theorem Node.children?_mapLeaves (f : Leaf → Leaf) (n : Node) :
    (n.mapLeaves f).children? = n.children?.map (Forest.mapLeaves f) := by
  obtain ⟨id, name, payload⟩ := n
  cases payload <;> rfl

namespace Forest

variable {scope : Scope} {root new nodes children changed : Forest} {before after : List Node}
  {n : Node} {id : String} {value : Raw} {room : Nat} {payload : Payload Node}

theorem mapLeaves_eq_map (f : Leaf → Leaf) (nodes : List Node) :
    mapLeaves f nodes = nodes.map (Node.mapLeaves f) := by
  induction nodes with
  | nil => rfl
  | cons n nodes ih => rw [mapLeaves, ih, List.map_cons]

/-- Trees that agree in everything but the values of their leaves: in identities, names, kinds and
order, at every depth. -/
def SameShape (root new : Forest) : Prop :=
  mapLeaves Leaf.blank new = mapLeaves Leaf.blank root

theorem SameShape.refl (root : Forest) : SameShape root root := rfl

theorem sameShape_insert {new : Node} (before after : List Node)
    (h : new.mapLeaves Leaf.blank = n.mapLeaves Leaf.blank) :
    SameShape (before ++ n :: after) (before ++ new :: after) := by
  unfold SameShape
  rw [mapLeaves_eq_map, mapLeaves_eq_map, List.map_append, List.map_append, List.map_cons,
    List.map_cons, h]

/-- What is of the same shape within a scope is so from the root on. -/
theorem ReplacesWithin.sameShape (h : ReplacesWithin children changed scope root new)
    (hsame : SameShape children changed) : SameShape root new := by
  induction h with
  | here => exact hsame
  | @inside rest before after n inner inner' _ hinner _ ih =>
    have hchildren : (n.mapLeaves Leaf.blank).children? = some (mapLeaves Leaf.blank inner) := by
      rw [Node.children?_mapLeaves, hinner, Option.map_some]
    apply sameShape_insert before after
    rw [Node.mapLeaves_withChildren, ih]
    exact withChildren_eq_self hchildren

/-- A new value of the same kind is a change of value alone. -/
theorem mapLeaves_blank_of_coerce (hleaf : n.isContainer = false)
    (h : n.kind.coerce value = .ok payload) :
    Node.mapLeaves Leaf.blank { n with payload := payload } = n.mapLeaves Leaf.blank := by
  obtain ⟨nid, name, old⟩ := n
  cases old with
  | branch shape children => cases hleaf
  | leaf old =>
    obtain ⟨leaf, rfl⟩ := Kind.exists_leaf_of_coerce (Raw.shape?_kind_leaf old) h
    have hkind : leaf.kind = old.kind := Kind.kind_of_coerce h
    rw [Node.mapLeaves, Node.mapLeaves, Leaf.blank_eq_iff.2 hkind]

/-! ## Siblings of an identity -/

theorem exists_or_forall_ne (nodes : Forest) (id : String) :
    (∃ n ∈ nodes, n.id = id) ∨ ∀ n ∈ nodes, n.id ≠ id := by
  by_cases h : ∃ n ∈ nodes, n.id = id
  · exact .inl h
  · exact .inr fun n hn heq ↦ h ⟨n, hn, heq⟩

theorem tryEdit_of_ne (h : n.id ≠ id) : tryEdit id value room n = .ok n :=
  if_neg (by rwa [beq_iff_eq])

theorem tryEdit_self (value : Raw) (room : Nat) (n : Node) :
    tryEdit n.id value room n =
      if n.isContainer then .error (.refused (.container n.kind n.name))
      else (n.kind.boundedCoerce room value).map fun payload ↦ { n with payload := payload } :=
  if_pos (beq_self_eq_true _)

theorem editAll_of_forall_ne (h : ∀ n ∈ nodes, n.id ≠ id) :
    editAll id value room nodes = .ok nodes :=
  mapM_eq_self fun n hn ↦ tryEdit_of_ne (h n hn)

theorem editAll_insert (hbefore : ∀ m ∈ before, m.id ≠ n.id) (hafter : ∀ m ∈ after, m.id ≠ n.id) :
    editAll n.id value room (before ++ n :: after) =
      (tryEdit n.id value room n).map fun m ↦ before ++ m :: after :=
  mapM_insert_eq_map n (fun m hm ↦ tryEdit_of_ne (hbefore m hm)) (editAll_of_forall_ne hafter)

theorem filter_of_forall_ne (h : ∀ n ∈ nodes, n.id ≠ id) :
    nodes.filter (fun n ↦ n.id != id) = nodes := by
  rw [List.filter_eq_self]
  intro n hn
  rw [bne_iff_ne]
  exact h n hn

theorem filter_insert (hbefore : ∀ m ∈ before, m.id ≠ n.id) (hafter : ∀ m ∈ after, m.id ≠ n.id) :
    (before ++ n :: after).filter (fun m ↦ m.id != n.id) = before ++ after := by
  rw [List.filter_append, List.filter_cons, bne_self_eq_false, if_neg Bool.false_ne_true,
    filter_of_forall_ne hbefore, filter_of_forall_ne hafter]

/-! ## New values -/

/-- A new value is refused: its leaf is a container, or the value is none of its kind and can be
written out to say so. -/
def Refuses (room : Nat) (n : Node) (value : Raw) : Prop :=
  n.isContainer = true ∨
    (∃ fault, n.kind.coerce value = .error fault) ∧ value.writingFault? room = none

/-- A new value reaches a limit where it is written out: as the text of its leaf, or because it is
none of its kind. -/
def Exceeds (room : Nat) (n : Node) (value : Raw) (fault : LimitFault) : Prop :=
  n.isContainer = false ∧ n.kind.writes value = true ∧ value.writingFault? room = some fault

theorem tryEdit_refused_iff :
    (∃ fault, tryEdit n.id value room n = .error (.refused fault)) ↔ Refuses room n value := by
  rw [tryEdit_self, Refuses]
  cases hcontainer : n.isContainer with
  | true => exact iff_of_true ⟨_, rfl⟩ (.inl rfl)
  | false =>
    simp only [Bool.false_eq_true, if_false, false_or, map_eq_error_iff]
    exact Kind.boundedCoerce_refused_iff

theorem tryEdit_limit_iff {fault : LimitFault} :
    tryEdit n.id value room n = .error (.limit fault) ↔ Exceeds room n value fault := by
  rw [tryEdit_self, Exceeds]
  cases hcontainer : n.isContainer with
  | true => exact iff_of_false nofun nofun
  | false =>
    rw [if_neg Bool.false_ne_true, map_eq_error_iff, and_iff_right rfl]
    exact Kind.boundedCoerce_limit_iff

/-- Two trees that differ in the value of one leaf of an identity within a scope, or not at all where
there is none. -/
inductive EditsValue (id : String) (value : Raw) (scope : Scope) (root : Forest) : Forest → Prop
  | missed (h : ∀ n ∈ root.within scope, n.id ≠ id) : EditsValue id value scope root root
  | edited {before after : List Node} {n : Node} {payload : Payload Node} {new : Forest}
      (hid : n.id = id) (hleaf : n.isContainer = false) (hcoerce : n.kind.coerce value = .ok payload)
      (h : ReplacesWithin (before ++ n :: after) (before ++ { n with payload := payload } :: after)
        scope root new) : EditsValue id value scope root new

theorem EditsValue.sameShape (h : EditsValue id value scope root new) : SameShape root new := by
  cases h with
  | missed => exact .refl root
  | edited _ hleaf hcoerce h =>
    exact h.sameShape (sameShape_insert _ _ (mapLeaves_blank_of_coerce hleaf hcoerce))

/-- Two trees that differ in a node of an identity within a scope, which one of them has not, or not at
all where there is none. -/
inductive Removes (id : String) (scope : Scope) (root : Forest) : Forest → Prop
  | missed (h : ∀ n ∈ root.within scope, n.id ≠ id) : Removes id scope root root
  | removed {before after : List Node} {n : Node} {new : Forest} (hid : n.id = id)
      (h : ReplacesWithin (before ++ n :: after) (before ++ after) scope root new) :
      Removes id scope root new

theorem ne_nil_of_mem_within (h : n ∈ root.within scope) : root ≠ [] := by
  rintro rfl
  cases scope with
  | nil => cases h
  | cons id rest =>
    rw [within_eq_getD] at h
    cases h

section Apart

variable (hroot : root.IsApart fun _ ↦ True)

include hroot

theorem edit_of_missed (h : ∀ n ∈ root.within scope, n.id ≠ id) :
    root.edit id value scope =
      if fits callLimit scope root then .ok root else .error (.limit .tooDeep) := by
  by_cases hlive : IsLive scope root
  · have hlens := hroot.lensLaws hlive
    have hsame := (hlens.outside fun _ ↦ root.within scope).eq_self rfl
    rw [hlens.fits_eq]
    by_cases hroom : scope.length < callLimit
    · rw [edit, hlens.once _ _ hroom, editAll_of_forall_ne h, decide_eq_true hroom, if_pos rfl]
      exact congrArg Except.ok hsame
    · rw [edit, hlens.refused _ _ (Nat.not_lt.1 hroom), decide_eq_false hroom,
        if_neg Bool.false_ne_true]
  · exact (hroot.noLens hlive).never _ _

theorem isLive_of_mem (hn : n ∈ root.within scope) : IsLive scope root := by
  by_contra hdead
  rw [(hroot.noLens hdead).within_eq_nil] at hn
  exact List.not_mem_nil hn

/-- The value of one leaf is tried with the room that the way leaves, and takes its place if it is
one. -/
theorem edit_of_mem (value : Raw) (hn : n ∈ root.within scope) :
    ∃ before after, root.edit n.id value scope =
        (if scope.length < callLimit then
          (tryEdit n.id value (callLimit - scope.length - 1) n).map
            (fun m ↦ update (fun _ ↦ before ++ m :: after) scope root)
        else .error (.limit .tooDeep)) ∧
      ∀ m, ReplacesWithin (before ++ n :: after) (before ++ m :: after) scope root
        (update (fun _ ↦ before ++ m :: after) scope root) := by
  obtain ⟨before, after, hwithin, hbefore, hafter⟩ := (hroot.within scope).exists_insert hn
  have hlens := hroot.lensLaws (isLive_of_mem hroot hn)
  refine ⟨before, after, ?_, fun m ↦ ?_⟩
  · split
    case isTrue hroom =>
      rw [edit, hlens.once _ _ hroom, hwithin, editAll_insert hbefore hafter]
      cases tryEdit n.id value (callLimit - scope.length - 1) n <;> rfl
    case isFalse hroom => rw [edit, hlens.refused _ _ (Nat.not_lt.1 hroom)]
  · have hreplaces := hlens.outside fun _ ↦ before ++ m :: after
    rwa [hwithin] at hreplaces

/-- A new value that is taken is one of the kind of the leaf. -/
theorem exists_of_edit (hn : n ∈ root.within scope) (h : root.edit n.id value scope = .ok new) :
    n.isContainer = false ∧ ∃ payload, n.kind.coerce value = .ok payload ∧
      ∃ before after, ReplacesWithin (before ++ n :: after)
        (before ++ { n with payload := payload } :: after) scope root new := by
  obtain ⟨before, after, hedit, hreplaces⟩ := edit_of_mem hroot value hn
  rw [hedit] at h
  split at h
  case isFalse => cases h
  case isTrue =>
    obtain ⟨m, hm, rfl⟩ := exists_of_map_eq_ok h
    rw [tryEdit_self] at hm
    split at hm
    case isTrue => cases hm
    case isFalse hleaf =>
      obtain ⟨payload, hcoerce, rfl⟩ := exists_of_map_eq_ok hm
      exact ⟨Bool.not_eq_true _ ▸ hleaf, payload, Kind.coerce_of_boundedCoerce hcoerce, before,
        after, hreplaces _⟩

/-- What is said about the siblings of an identity is said about the one that there is. -/
theorem exists_withId_iff (hn : n ∈ root.within scope) {P : Node → Prop} :
    (IsLive scope root ∧ ∃ m ∈ root.within scope, m.id = n.id ∧ P m) ↔ P n := by
  rw [and_iff_right (isLive_of_mem hroot hn)]
  constructor
  · rintro ⟨m, hm, hid, hP⟩
    have hdistinct := List.inj_on_of_nodup_map (hroot.within scope).distinct
    rwa [hdistinct hm hn hid] at hP
  · intro hP
    exact ⟨n, hn, rfl, hP⟩

theorem edit_refused_iff :
    (∃ fault, root.edit id value scope = .error (.refused fault)) ↔
      scope.length < callLimit ∧ IsLive scope root ∧
        ∃ n ∈ root.within scope, n.id = id ∧ Refuses (callLimit - scope.length - 1) n value := by
  rcases exists_or_forall_ne (root.within scope) id with ⟨n, hn, rfl⟩ | hmissed
  · obtain ⟨before, after, hedit, -⟩ := edit_of_mem hroot value hn
    rw [hedit, exists_withId_iff hroot hn]
    split
    case isTrue hroom =>
      simp only [map_eq_error_iff]
      rw [tryEdit_refused_iff, and_iff_right hroom]
    case isFalse hroom => exact iff_of_false (fun ⟨_, h⟩ ↦ by cases h) (fun h ↦ hroom h.1)
  · rw [edit_of_missed hroot hmissed]
    apply iff_of_false
    · rintro ⟨fault, h⟩
      split at h <;> cases h
    · rintro ⟨-, -, n, hn, hid, -⟩
      exact absurd hid (hmissed n hn)

theorem edit_limit_iff {fault : LimitFault} :
    root.edit id value scope = .error (.limit fault) ↔
      (fits callLimit scope root = false ∧ fault = .tooDeep) ∨
        scope.length < callLimit ∧ IsLive scope root ∧
          ∃ n ∈ root.within scope, n.id = id ∧
            Exceeds (callLimit - scope.length - 1) n value fault := by
  rcases exists_or_forall_ne (root.within scope) id with ⟨n, hn, rfl⟩ | hmissed
  · obtain ⟨before, after, hedit, -⟩ := edit_of_mem hroot value hn
    rw [hedit, exists_withId_iff hroot hn, (hroot.lensLaws (isLive_of_mem hroot hn)).fits_eq]
    split
    case isTrue hroom =>
      rw [map_eq_error_iff, tryEdit_limit_iff, and_iff_right hroom, decide_eq_true hroom]
      exact (or_iff_right fun h ↦ Bool.noConfusion h.1).symm
    case isFalse hroom =>
      rw [decide_eq_false hroom, or_iff_left fun h ↦ hroom h.1, and_iff_right rfl,
        Except.error.injEq, ChangeFault.limit.injEq, eq_comm]
  · rw [edit_of_missed hroot hmissed, or_iff_left]
    · cases fits callLimit scope root with
      | true => exact iff_of_false nofun fun h ↦ Bool.noConfusion h.1
      | false =>
        rw [if_neg Bool.false_ne_true, and_iff_right rfl, Except.error.injEq,
          ChangeFault.limit.injEq, eq_comm]
    · rintro ⟨-, -, n, hn, hid, -⟩
      exact absurd hid (hmissed n hn)

theorem editsValue_of_edit (h : root.edit id value scope = .ok new) :
    EditsValue id value scope root new := by
  rcases exists_or_forall_ne (root.within scope) id with ⟨n, hn, rfl⟩ | hmissed
  · obtain ⟨hleaf, payload, hcoerce, before, after, hreplaces⟩ := exists_of_edit hroot hn h
    exact .edited rfl hleaf hcoerce hreplaces
  · rw [edit_of_missed hroot hmissed] at h
    split at h
    case isTrue =>
      obtain rfl := Except.ok.inj h
      exact .missed hmissed
    case isFalse => cases h

/-- A node that is removed is taken from between its siblings. -/
theorem delete_of_mem (hn : n ∈ root.within scope) :
    ∃ before after, ReplacesWithin (before ++ n :: after) (before ++ after) scope root
      (root.delete n.id scope) := by
  obtain ⟨before, after, hwithin, hbefore, hafter⟩ := (hroot.within scope).exists_insert hn
  have hreplaces := (hroot.lensLaws (isLive_of_mem hroot hn)).outside
    fun nodes ↦ nodes.filter fun m ↦ m.id != n.id
  rw [hwithin, filter_insert hbefore hafter] at hreplaces
  exact ⟨before, after, hreplaces⟩

theorem delete_of_missed (h : ∀ n ∈ root.within scope, n.id ≠ id) :
    root.delete id scope = root := by
  by_cases hlive : IsLive scope root
  · have hreplaces := (hroot.lensLaws hlive).outside fun nodes ↦ nodes.filter fun m ↦ m.id != id
    exact hreplaces.eq_self (filter_of_forall_ne h)
  · exact (hroot.noLens hlive).update_eq_self _

theorem removes_delete (id : String) (scope : Scope) :
    Removes id scope root (root.delete id scope) := by
  rcases exists_or_forall_ne (root.within scope) id with ⟨n, hn, rfl⟩ | hmissed
  · obtain ⟨before, after, hreplaces⟩ := delete_of_mem hroot hn
    exact .removed rfl hreplaces
  · rw [delete_of_missed hroot hmissed]
    exact .missed hmissed

/-- What a new value and a removal touch at an identity within a scope. -/
structure TouchesTarget (id : String) (value : Raw) (scope : Scope) (root : Forest) : Prop where
  refused_iff : (∃ fault, root.edit id value scope = .error (.refused fault)) ↔
    scope.length < callLimit ∧ IsLive scope root ∧
      ∃ n ∈ root.within scope, n.id = id ∧ Refuses (callLimit - scope.length - 1) n value
  /-- A limit is reached on the way, or where the value is written out. -/
  limit_iff : ∀ fault, root.edit id value scope = .error (.limit fault) ↔
    (fits callLimit scope root = false ∧ fault = .tooDeep) ∨
      scope.length < callLimit ∧ IsLive scope root ∧
        ∃ n ∈ root.within scope, n.id = id ∧ Exceeds (callLimit - scope.length - 1) n value fault
  sameShape : ∀ new, root.edit id value scope = .ok new → SameShape root new
  edited : ∀ new, root.edit id value scope = .ok new → EditsValue id value scope root new
  /-- A removal is refused where there is no room for the way, and nowhere else. -/
  deleted : root.boundedDelete id scope =
    if fits callLimit scope root then .ok (root.delete id scope) else .error (.limit .tooDeep)
  removed : Removes id scope root (root.delete id scope)

/-- A new value touches the value of one leaf, a removal touches one node, and nothing else. -/
theorem touchesTarget (id : String) (value : Raw) (scope : Scope) :
    TouchesTarget id value scope root where
  refused_iff := edit_refused_iff hroot
  limit_iff _ := edit_limit_iff hroot
  sameShape _ hnew := (editsValue_of_edit hroot hnew).sameShape
  edited _ hnew := editsValue_of_edit hroot hnew
  deleted := rfl
  removed := removes_delete hroot id scope

end Apart

theorem touchesTarget_stale :
    (stale.IsApart fun _ ↦ True) ∧ TouchesTarget "m" (.text "u") ["i"] stale :=
  ⟨isApart_stale, touchesTarget isApart_stale "m" (.text "u") ["i"]⟩

/-- A value that has a text is refused where there is no room for writing it, and a removal where
there is none for the way. -/
theorem exists_edit_too_deep :
    ((stale.IsApart fun _ ↦ True) ∧ ∃ value payload, Kind.text.coerce value = .ok payload ∧
      stale.edit "m" value ["i"] = .error (.limit .tooDeep)) ∧
    ∃ (root : Forest) (scope : Scope), (root.IsApart fun _ ↦ True) ∧
      root.within? scope = some [] ∧
      ∀ id, root.boundedDelete id scope = .error (.limit .tooDeep) := by
  constructor
  · let value : Raw := .node (chain ⟨0⟩ (.leaf (.text "x")) "a" (List.replicate 199 "a"))
    have hfault : value.writingFault? (callLimit - 2) = some .tooDeep := by
      rw [Raw.writingFault?, height_chain_leaf, List.length_replicate]
      rfl
    have hwithin : stale.within ["i"] =
        [⟨"j", "1", .branch .dictionary [⟨"k", "x", .leaf (.boolean true)⟩]⟩,
          ⟨"m", "2", .leaf (.text "t")⟩] := rfl
    have hmem : ⟨"m", "2", .leaf (.text "t")⟩ ∈ stale.within ["i"] := by
      rw [hwithin]
      exact List.mem_cons_of_mem _ List.mem_cons_self
    refine ⟨isApart_stale, value, _, rfl, (edit_limit_iff isApart_stale).2 (.inr ⟨by decide, ?_⟩)⟩
    exact ⟨isLive_of_mem isApart_stale hmem, _, hmem, rfl, rfl, rfl, hfault⟩
  · obtain ⟨root, scope, hroot, hwithin, hlong⟩ := exists_long_way
    refine ⟨root, scope, hroot, hwithin, fun id ↦ ?_⟩
    rw [boundedDelete, boundedUpdate, hlong, if_neg Bool.false_ne_true]

end Forest

end KeyTree
