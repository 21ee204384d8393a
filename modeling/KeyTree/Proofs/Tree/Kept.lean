import KeyTree.Proofs.Document.Names
import KeyTree.Proofs.Tree.Edits
import KeyTree.Proofs.Tree.Put

/-!
# Nodes that edits keep

Nodes are rebuilt all along the way to a place that is edited, and keep their identities there. Putting
at a path keeps every node to which names lead, unless it stands below the path. Edits within a scope
keep the containers on the way, and new values keep all nodes.
-/

namespace KeyTree

/-- The same node by identity and name, whatever it holds. -/
def Node.Continues (m n : Node) : Prop := m.id = n.id ∧ m.name = n.name

theorem Node.Continues.refl (n : Node) : n.Continues n := ⟨rfl, rfl⟩

theorem Node.continues_withChildren (n : Node) (children : Forest) :
    (n.withChildren children).Continues n := ⟨rfl, rfl⟩

namespace Forest

/-! ## Putting at a path -/

theorem namedAlong?_eq_none {nodes : Forest} {head : String} (hnone : nodes.named? head = none)
    (tail : List String) : nodes.namedAlong? head tail = none := by
  cases tail with
  | nil => exact hnone
  | cons next rest =>
    rw [namedAlong?, childrenNamed?, hnone]
    rfl

/-- Names that part from the path at once lead to the very same node. -/
theorem Puts.exists_of_ne {payload : Payload Node} {nodes new : Forest} {head head' : String}
    {tail tail' : List String} {outcome : Outcome} {n : Node}
    (h : Puts payload nodes head tail new outcome) (hne : head ≠ head')
    (hn : nodes.namedAlong? head' tail' = some n) :
    ∃ m, new.namedAlong? head' tail' = some m ∧ m.Continues n := by
  rw [namedAlong?_congr (h.named?_of_ne hne), hn]
  exact ⟨n, rfl, .refl n⟩

/-- Names still lead to a node of the same identity if they do not go on below the path. -/
theorem Puts.exists_continues {payload : Payload Node} {nodes new : Forest} {head head' : String}
    {tail tail' : List String} {outcome : Outcome} {n : Node}
    (h : Puts payload nodes head tail new outcome)
    (hbelow : head :: tail <+: head' :: tail' → tail' = tail)
    (hn : nodes.namedAlong? head' tail' = some n) :
    ∃ m, new.namedAlong? head' tail' = some m ∧ m.Continues n := by
  induction h generalizing head' tail' n with
  | unchanged => exact ⟨n, hn, .refl n⟩
  | blocked => exact ⟨n, hn, .refl n⟩
  | created added hnone hpayload =>
    by_cases hne : added.name = head'
    · rw [← hne, namedAlong?_eq_none hnone] at hn
      cases hn
    · exact (Puts.created added hnone hpayload).exists_of_ne hne hn
  | opened added hnone hpayload h =>
    by_cases hne : added.name = head'
    · rw [← hne, namedAlong?_eq_none hnone] at hn
      cases hn
    · exact (Puts.opened added hnone hpayload h).exists_of_ne hne hn
  | updated old after hbefore =>
    by_cases hne : old.name = head'
    · subst hne
      obtain rfl := hbelow (List.cons_prefix_cons.2 ⟨rfl, List.nil_prefix⟩)
      rw [namedAlong?, named?_insert old after hbefore] at hn
      obtain rfl := Option.some.inj hn
      exact ⟨_, named?_insert { old with payload := payload } after hbefore, rfl, rfl⟩
    · exact (Puts.updated old after hbefore).exists_of_ne hne hn
  | inside old after hbefore hchildren h ih =>
    by_cases hne : old.name = head'
    · subst hne
      cases tail' with
      | nil =>
        rw [namedAlong?, named?_insert old after hbefore] at hn
        obtain rfl := Option.some.inj hn
        exact ⟨_, named?_insert (old.withChildren _) after hbefore, rfl, rfl⟩
      | cons next' rest' =>
        rw [namedAlong?, childrenNamed?_insert after hbefore hchildren] at hn
        rw [namedAlong?, childrenNamed?_withChildren after hbefore hchildren]
        refine ih (fun hprefix ↦ ?_) hn
        exact (List.cons.inj (hbelow (List.cons_prefix_cons.2 ⟨rfl, hprefix⟩))).2
    · exact (Puts.inside old after hbefore hchildren h).exists_of_ne hne hn

/-- A node to which names lead is kept under the same names, unless it stands below the path. -/
def KeepsBut (path : Path) (root new : Forest) : Prop :=
  ∀ other n, (path.segments <+: other.segments → other = path) → root.namedAt? other = some n →
    ∃ m, new.namedAt? other = some m ∧ m.Continues n

theorem KeepsBut.refl (path : Path) (root : Forest) : KeepsBut path root root :=
  fun _ n _ hn ↦ ⟨n, hn, .refl n⟩

theorem keepsBut_put (supply : Supply) (root : Forest) (path : Path) (payload : Payload Node) :
    KeepsBut path root (root.put supply path payload).1 := by
  intro other n hbelow hn
  have hputs : Puts payload root path.head path.tail (root.put supply path payload).1 _ :=
    puts_putAlong supply payload root path.head path.tail
  exact hputs.exists_continues (fun hprefix ↦ congrArg Path.tail (hbelow hprefix)) hn

/-! ## Edits within a scope -/

theorem withId?_map {nodes : Forest} {f : Node → Node} (hf : ∀ n, (f n).id = n.id) (id : String) :
    withId? (nodes.map f) id = (nodes.withId? id).map f := by
  have hid : (fun n : Node ↦ n.id == id) ∘ f = fun n ↦ n.id == id := by
    funext n
    rw [Function.comp_apply, hf]
  unfold withId?
  rw [List.find?_map, hid]

/-- The change of one node on the way along a scope that cannot be refused. -/
def enter (f : Forest → Forest) (id : String) (rest : Scope) (n : Node) : Node :=
  match n.children? with
  | some children => if n.id == id then n.withChildren (update f rest children) else n
  | none => n

theorem update_cons (f : Forest → Forest) (id : String) (rest : Scope) (nodes : Forest) :
    update f (id :: rest) nodes = nodes.map (enter f id rest) := rfl

theorem enter_continues (f : Forest → Forest) (id : String) (rest : Scope) (n : Node) :
    (enter f id rest n).Continues n := by
  unfold enter
  split
  · split
    · exact n.continues_withChildren _
    · exact .refl n
  · exact .refl n

theorem kind_withChildren (n : Node) (children : Forest) : (n.withChildren children).kind = n.kind := by
  obtain ⟨id, name, payload⟩ := n
  cases payload <;> rfl

theorem id_of_withId? {nodes : Forest} {id : String} {n : Node} (h : nodes.withId? id = some n) :
    n.id = id := by
  unfold withId? at h
  have hid := List.find?_some h
  rwa [beq_iff_eq] at hid

/-- The containers on the way of a scope are kept. -/
theorem container?_update (f : Forest → Forest) {nodes : Forest} {scope init : Scope} {n : Node}
    (hinit : init <+: scope) (hn : nodes.container? init = some n) :
    ∃ m, (update f scope nodes).container? init = some m ∧ m.Continues n ∧ m.kind = n.kind := by
  induction init generalizing nodes scope with
  | nil => cases hn
  | cons id init ih =>
    obtain ⟨rest, rfl⟩ := hinit
    rw [List.cons_append, update_cons]
    unfold container? at hn ⊢
    rw [withId?_map fun n ↦ (enter_continues f id _ n).1]
    cases hid : nodes.withId? id with
    | none =>
      rw [hid] at hn
      cases hn
    | some old =>
      cases hchildren : old.children? with
      | none =>
        rw [hid] at hn
        simp only [hchildren] at hn
        cases hn
      | some children =>
        have henter : enter f id (init ++ rest) old =
            old.withChildren (update f (init ++ rest) children) := by
          unfold enter
          rw [hchildren]
          exact if_pos (beq_iff_eq.2 (id_of_withId? hid))
        rw [hid] at hn
        rw [Option.map_some, henter]
        simp only [hchildren] at hn
        simp only [children?_withChildren hchildren]
        cases init with
        | nil =>
          obtain rfl := Option.some.inj hn
          exact ⟨_, rfl, old.continues_withChildren _, kind_withChildren old _⟩
        | cons next init => exact ih (List.prefix_append _ rest) hn

/-- The containers on the way of a scope are kept, also the one to which it leads. -/
def KeepsContainers (scope : Scope) (root new : Forest) : Prop :=
  ∀ init n, init <+: scope → root.container? init = some n →
    ∃ m, new.container? init = some m ∧ m.Continues n ∧ m.kind = n.kind

theorem KeepsContainers.refl (scope : Scope) (root : Forest) : KeepsContainers scope root root :=
  fun _ n _ hn ↦ ⟨n, hn, .refl n, rfl⟩

theorem keepsContainers_add {supply : Supply} {root new : Forest} {name kindName : String}
    {value : Raw} {scope : Scope} (h : root.add supply name kindName value scope = .ok new) :
    KeepsContainers scope root new := by
  intro init n hinit hn
  obtain ⟨_, -, ⟨-, rfl⟩ | ⟨-, -, rfl⟩⟩ := exists_of_add h
  · exact container?_update _ hinit hn
  · exact container?_update _ hinit hn

theorem keepsContainers_delete (root : Forest) (id : String) (scope : Scope) :
    KeepsContainers scope root (root.delete id scope) :=
  fun _ _ hinit hn ↦ container?_update _ hinit hn

/-! ## New values -/

theorem ids_mapM {step : Node → Except ChangeFault Node} {nodes changed : Forest}
    (hstep : ∀ n m, step n = .ok m → m.ids = n.ids) (h : nodes.mapM step = .ok changed) :
    ids changed = ids nodes := by
  have hall := forall₂_of_mapM h
  clear h
  induction hall with
  | nil => rfl
  | @cons n m ns ms hm _ ih => rw [ids_cons, ids_cons, hstep n m hm, ih]

/-- An edited node stays as it is, or is a leaf that gets another value. -/
theorem eq_or_leaf_of_tryEdit {id : String} {value : Raw} {room : Nat} {n m : Node}
    (h : tryEdit id value room n = .ok m) :
    m = n ∨ ∃ old new, n.payload = .leaf old ∧ m = { n with payload := .leaf new } := by
  unfold tryEdit at h
  split at h
  case isFalse => exact .inl (Except.ok.inj h).symm
  case isTrue =>
    split at h
    case isTrue => cases h
    case isFalse hleaf =>
      obtain ⟨payload, hcoerce, rfl⟩ := exists_of_map_eq_ok h
      obtain ⟨nid, name, old⟩ := n
      cases old with
      | branch shape children => exact absurd rfl hleaf
      | leaf old =>
        obtain ⟨new, rfl⟩ := Kind.exists_leaf_of_coerce (Raw.shape?_kind_leaf old)
          (Kind.coerce_of_boundedCoerce hcoerce)
        exact .inr ⟨old, new, rfl, rfl⟩

theorem ids_of_tryEdit {id : String} {value : Raw} {room : Nat} {n m : Node}
    (h : tryEdit id value room n = .ok m) : m.ids = n.ids := by
  rcases eq_or_leaf_of_tryEdit h with rfl | ⟨old, new, hold, rfl⟩
  · rfl
  · obtain ⟨nid, name, payload⟩ := n
    obtain rfl : payload = .leaf old := hold
    rfl

theorem ids_of_tryUpdate {f : Nat → Forest → Except ChangeFault Forest} {room : Nat}
    {scope : Scope} {nodes changed : Forest}
    (hf : ∀ room old new, f room old = .ok new → ids new = ids old)
    (h : tryUpdate f room scope nodes = .ok changed) : ids changed = ids nodes := by
  induction room, scope, nodes using tryUpdate.induct generalizing changed with
  | case1 => cases h
  | case2 room nodes => exact hf room nodes changed h
  | case3 room id rest nodes ih =>
    rw [tryUpdate_cons] at h
    refine ids_mapM (fun n m hm ↦ ?_) h
    unfold tryEnter at hm
    split at hm
    case h_2 => rw [← Except.ok.inj hm]
    case h_1 children hchildren =>
      split at hm
      case isFalse => rw [← Except.ok.inj hm]
      case isTrue =>
        obtain ⟨new, hnew, rfl⟩ := exists_of_map_eq_ok hm
        obtain ⟨nid, name, payload⟩ := n
        cases payload with
        | leaf value => cases hchildren
        | branch shape _ =>
          obtain rfl := Option.some.inj hchildren
          exact congrArg (nid :: ·) (ih _ hnew)

/-- A new value keeps all nodes where they are. -/
theorem ids_edit {root new : Forest} {id : String} {value : Raw} {scope : Scope}
    (h : root.edit id value scope = .ok new) : ids new = ids root := by
  refine ids_of_tryUpdate (fun room old changed hchanged ↦ ?_) h
  change old.mapM (tryEdit id value room) = .ok changed at hchanged
  exact ids_mapM (fun n m ↦ ids_of_tryEdit) hchanged

end Forest

end KeyTree
