import KeyTree.Proofs.Tree.Edits
import KeyTree.Proofs.Tree.Twins

/-!
# Edits of twins

A path leads to twins in twins, and a scope does if its identities stand for each other. The same
edit makes twins of twins, if the new identities stand for each other too.
-/

namespace KeyTree

variable {E : String → String → Prop} {nodes nodes' root root' : List Node} {u v : Supply}

theorem Node.Twin.bind_children? {x y : Option Node} (h : Option.Rel (Node.Twin E) x y) :
    Option.Rel (Forest.Twins E) (x.bind Node.children?) (y.bind Node.children?) := by
  cases h with
  | none => exact .none
  | some hnm => exact hnm.children?

/-- A payload without nodes is its own twin. -/
theorem Payload.IsBare.twin {payload : Payload Node} (h : payload.IsBare) :
    payload.Twin E payload := by
  cases payload with
  | leaf value => exact .leaf rfl
  | branch shape children =>
    obtain rfl : children = [] := h
    exact .branch shape .nil

/-- Twins agree with the same payloads without nodes. -/
theorem Payload.Twin.same_eq {p q payload : Payload Node} (h : p.Twin E q)
    (hpayload : payload.IsBare) : p.same payload = q.same payload := by
  cases payload with
  | leaf value =>
    cases h with
    | leaf hvalue => exact hvalue.same_eq value
    | branch shape hchildren => rfl
  | branch shape children =>
    obtain rfl : children = [] := hpayload
    cases h with
    | leaf hvalue => rfl
    | branch shape' hchildren =>
      cases hchildren with
      | nil => rfl
      | cons hnm hrest => rfl

namespace Forest

/-! ## Looking up -/

theorem Twins.named? (h : Twins E nodes nodes') (name : String) :
    Option.Rel (Node.Twin E) (Forest.named? nodes name) (Forest.named? nodes' name) := by
  apply rel_find? h
  intro n m hnm
  rw [hnm.name_eq]

theorem Twins.child? (h : Twins E nodes nodes') (segment : String) (positional : Bool) :
    Alike (Option.Rel (Node.Twin E)) (Forest.child? nodes segment positional)
      (Forest.child? nodes' segment positional) := by
  unfold Forest.child?
  rcases none_or_some_of_rel (h.named? segment) with ⟨hn, hm⟩ | ⟨n, m, hn, hm, hnm⟩
  · rw [hn, hm]
    dsimp only
    split
    case isTrue =>
      cases Whole.read segment.toList with
      | error fault => exact .error fault
      | ok i => exact .ok (rel_getElem? h i)
    case isFalse => exact .ok .none
  · rw [hn, hm]
    exact .ok (.some hnm)

theorem Twins.follow? (h : Twins E nodes nodes') (head : String) (tail : List String) :
    Alike (Option.Rel (Node.Twin E)) (Forest.follow? nodes head tail)
      (Forest.follow? nodes' head tail) := by
  induction tail generalizing nodes nodes' head with
  | nil => exact h.child? head true
  | cons next rest ih =>
    rw [Forest.follow?, Forest.follow?]
    refine (h.child? head true).bind fun x y hxy ↦ ?_
    rcases none_or_some_of_rel (Node.Twin.bind_children? hxy) with
      ⟨hx, hy⟩ | ⟨children, children', hx, hy, hchildren⟩
    · rw [hx, hy]
      exact .ok .none
    · rw [hx, hy]
      exact ih hchildren next

theorem Twins.lookup? (h : Twins E root root') (path : String) :
    Alike (Option.Rel (Node.Twin E)) (Forest.lookup? root path) (Forest.lookup? root' path) := by
  unfold Forest.lookup?
  cases Path.parse path with
  | error fault => exact .ok .none
  | ok p => exact h.follow? p.head p.tail

theorem Twins.scopeAlong? (h : Twins E nodes nodes') (segments : List String) :
    Alike (Option.Rel (List.Forall₂ E)) (Forest.scopeAlong? nodes segments)
      (Forest.scopeAlong? nodes' segments) := by
  induction segments generalizing nodes nodes' with
  | nil => exact .ok (.some .nil)
  | cons segment rest ih =>
    rw [Forest.scopeAlong?, Forest.scopeAlong?]
    refine (h.child? segment true).bind fun x y hxy ↦ ?_
    cases hxy with
    | none => exact .ok .none
    | some hnm =>
      rcases none_or_some_of_rel hnm.children? with
        ⟨hx, hy⟩ | ⟨children, children', hx, hy, hchildren⟩
      · simp only [hx, hy]
        exact .ok .none
      · simp only [hx, hy]
        refine (ih hchildren).bind fun scope scope' hscope ↦ .ok ?_
        cases hscope with
        | none => exact .none
        | some hscope => exact .some (.cons hnm.id hscope)

theorem Twins.scopeOf? (h : Twins E root root') (path : String) :
    Alike (Option.Rel (List.Forall₂ E)) (Forest.scopeOf? root path)
      (Forest.scopeOf? root' path) := by
  unfold Forest.scopeOf?
  split
  case isTrue => exact .ok (.some .nil)
  case isFalse =>
    cases Path.parse path with
    | error fault => exact .ok .none
    | ok p => exact h.scopeAlong? p.segments

/-! ## Putting at a path -/

theorem Twins.replaceNamed {n m : Node} (h : Twins E nodes nodes') (name : String)
    (hnm : n.Twin E m) :
    Twins E (Forest.replaceNamed name n nodes) (Forest.replaceNamed name m nodes') := by
  induction h with
  | nil => exact .nil
  | @cons a b as bs hab habs ih =>
    rw [Forest.replaceNamed, Forest.replaceNamed, hab.name_eq]
    split
    case isTrue => exact .cons hnm habs
    case isFalse => exact .cons hab ih

theorem Twins.putNamed {n m : Node} (h : Twins E nodes nodes') (hnm : n.Twin E m) :
    Twins E (Forest.putNamed n nodes) (Forest.putNamed m nodes') := by
  induction h with
  | nil => exact .cons hnm .nil
  | @cons a b as bs hab habs ih =>
    rw [Forest.putNamed, Forest.putNamed, hab.name_eq, hnm.name_eq]
    split
    case isTrue => exact .cons hnm habs
    case isFalse => exact .cons hab ih

theorem chain_twin (h : Supply.Twin E u v) {p q : Payload Node} (hpq : p.Twin E q) (head : String)
    (tail : List String) : (chain u p head tail).Twin E (chain v q head tail) := by
  induction tail generalizing u v head with
  | nil => exact .intro h.id rfl hpq
  | cons next rest ih =>
    exact .intro h.id rfl (.branch .dictionary (.cons (ih (h.skip 1) next) .nil))

theorem Twins.putAlong (h : Twins E nodes nodes') (hsupply : Supply.Twin E u v)
    {payload : Payload Node} (hpayload : payload.IsBare) (head : String) (tail : List String) :
    Twins E (Forest.putAlong u payload nodes head tail).1
        (Forest.putAlong v payload nodes' head tail).1 ∧
      (Forest.putAlong u payload nodes head tail).2 =
        (Forest.putAlong v payload nodes' head tail).2 := by
  induction tail generalizing nodes nodes' u v head with
  | nil =>
    rw [Forest.putAlong, Forest.putAlong]
    rcases none_or_some_of_rel (h.named? head) with ⟨hn, hm⟩ | ⟨n, m, hn, hm, hnm⟩
    · rw [hn, hm]
      exact ⟨List.rel_append h (.cons (chain_twin hsupply hpayload.twin head []) .nil), rfl⟩
    · simp only [hn, hm, hnm.payload.same_eq hpayload]
      split
      case isTrue => exact ⟨h, rfl⟩
      case isFalse =>
        exact ⟨h.replaceNamed head (.intro hnm.id hnm.name_eq hpayload.twin), rfl⟩
  | cons next rest ih =>
    rw [Forest.putAlong, Forest.putAlong]
    rcases none_or_some_of_rel (h.named? head) with ⟨hn, hm⟩ | ⟨n, m, hn, hm, hnm⟩
    · rw [hn, hm]
      exact ⟨List.rel_append h (.cons (chain_twin hsupply hpayload.twin head (next :: rest)) .nil),
        rfl⟩
    · rcases none_or_some_of_rel hnm.children? with
        ⟨hx, hy⟩ | ⟨children, children', hx, hy, hchildren⟩
      · rw [hn, hm]
        dsimp only
        rw [hx, hy]
        exact ⟨h, rfl⟩
      · obtain ⟨htwins, houtcome⟩ := ih hchildren (hsupply.skip 1) next
        simp only [hn, hm, hx, hy, houtcome]
        split
        case isTrue => exact ⟨h.replaceNamed head (hnm.withChildren htwins), rfl⟩
        case isFalse => exact ⟨h, rfl⟩

/-- Putting the same payload makes twins of twins, with the same outcome. -/
theorem Twins.put (h : Twins E root root') (hsupply : Supply.Twin E u v) (path : Path)
    {payload : Payload Node} (hpayload : payload.IsBare) :
    Twins E (Forest.put u root path payload).1 (Forest.put v root' path payload).1 ∧
      (Forest.put u root path payload).2.1 = (Forest.put v root' path payload).2.1 ∧
      Supply.Twin E (Forest.put u root path payload).2.2 (Forest.put v root' path payload).2.2 := by
  obtain ⟨htwins, houtcome⟩ := h.putAlong hsupply hpayload path.head path.tail
  exact ⟨htwins, houtcome, hsupply.skip _⟩

theorem Twins.putCalls_eq (h : Twins E nodes nodes') (head : String) (tail : List String) :
    Forest.putCalls nodes head tail = Forest.putCalls nodes' head tail := by
  induction tail generalizing nodes nodes' head with
  | nil => rfl
  | cons next rest ih =>
    rw [Forest.putCalls, Forest.putCalls]
    rcases none_or_some_of_rel (h.named? head) with ⟨hn, hm⟩ | ⟨n, m, hn, hm, hnm⟩
    · rw [hn, hm]
    · rcases none_or_some_of_rel hnm.children? with
        ⟨hx, hy⟩ | ⟨children, children', hx, hy, hchildren⟩
      · simp only [hn, hm, hx, hy]
      · simp only [hn, hm, hx, hy, ih hchildren next]

theorem Twins.boundedPut (h : Twins E root root') (hsupply : Supply.Twin E u v) (path : Path)
    {payload : Payload Node} (hpayload : payload.IsBare) :
    Alike (fun x y ↦ Twins E x.1 y.1 ∧ x.2.1 = y.2.1 ∧ Supply.Twin E x.2.2 y.2.2)
      (Forest.boundedPut u root path payload) (Forest.boundedPut v root' path payload) := by
  unfold Forest.boundedPut
  rw [h.putCalls_eq]
  split
  case isTrue => exact .ok (h.put hsupply path hpayload)
  case isFalse => exact .error _

/-! ## Edits within scopes -/

section Scopes

variable {scope scope' : Scope} {i j : String} (hE : IsPairing E)

include hE

theorem Twins.withId? (h : Twins E nodes nodes') (hij : E i j) :
    Option.Rel (Node.Twin E) (Forest.withId? nodes i) (Forest.withId? nodes' j) := by
  apply rel_find? h
  intro n m hnm
  exact hE.beq_eq hnm.id hij

theorem Twins.container? (h : Twins E nodes nodes') (hscope : List.Forall₂ E scope scope') :
    Option.Rel (Node.Twin E) (Forest.container? nodes scope) (Forest.container? nodes' scope') := by
  induction hscope generalizing nodes nodes' with
  | nil => exact .none
  | @cons i j rest rest' hij hrest ih =>
    rw [Forest.container?, Forest.container?]
    rcases none_or_some_of_rel (h.withId? hE hij) with ⟨hn, hm⟩ | ⟨n, m, hn, hm, hnm⟩
    · rw [hn, hm]
      exact .none
    · rcases none_or_some_of_rel hnm.children? with
        ⟨hx, hy⟩ | ⟨children, children', hx, hy, hchildren⟩
      · simp only [hn, hm, hx, hy]
        exact .none
      · simp only [hn, hm, hx, hy]
        cases hrest with
        | nil => exact .some hnm
        | cons hkl hrest => exact ih hchildren

theorem Twins.within (h : Twins E root root') (hscope : List.Forall₂ E scope scope') :
    Twins E (Forest.within root scope) (Forest.within root' scope') := by
  cases hscope with
  | nil => exact h
  | cons hij hrest =>
    have hcontainer := Node.Twin.bind_children? (h.container? hE (.cons hij hrest))
    unfold Forest.within
    rcases none_or_some_of_rel hcontainer with ⟨hx, hy⟩ | ⟨children, children', hx, hy, hchildren⟩
    · dsimp only
      rw [hx, hy]
      exact .nil
    · dsimp only
      rw [hx, hy]
      exact hchildren

theorem Twins.isListAt_eq (h : Twins E root root') (hscope : List.Forall₂ E scope scope') :
    Forest.isListAt root scope = Forest.isListAt root' scope' := by
  unfold Forest.isListAt
  rcases none_or_some_of_rel (h.container? hE hscope) with ⟨hn, hm⟩ | ⟨n, m, hn, hm, hnm⟩
  · rw [hn, hm, Option.any_none]
  · rw [hn, hm, Option.any_some, Option.any_some, hnm.kind_eq]

theorem Twins.update {f g : Forest → Forest} (h : Twins E nodes nodes')
    (hscope : List.Forall₂ E scope scope')
    (hfg : ∀ {ns ms : List Node}, Twins E ns ms → Twins E (f ns) (g ms)) :
    Twins E (Forest.update f scope nodes) (Forest.update g scope' nodes') := by
  induction hscope generalizing nodes nodes' with
  | nil => exact hfg h
  | @cons i j rest rest' hij hrest ih =>
    rw [Forest.update, Forest.update]
    refine List.rel_map ?_ h
    intro n m hnm
    rcases none_or_some_of_rel hnm.children? with
      ⟨hx, hy⟩ | ⟨children, children', hx, hy, hchildren⟩
    · simp only [hx, hy]
      exact hnm
    · simp only [hx, hy, hE.beq_eq hnm.id hij]
      split
      case isTrue => exact hnm.withChildren (ih hchildren)
      case isFalse => exact hnm

theorem Twins.fits_eq (h : Twins E nodes nodes') (hscope : List.Forall₂ E scope scope')
    (room : Nat) : Forest.fits room scope nodes = Forest.fits room scope' nodes' := by
  induction hscope generalizing room nodes nodes' with
  | nil => cases room <;> rfl
  | @cons i j rest rest' hij hrest ih =>
    cases room with
    | zero => rfl
    | succ room =>
      rw [Forest.fits, Forest.fits]
      refine all_eq_of_forall₂ h fun n m hnm ↦ ?_
      rcases none_or_some_of_rel hnm.children? with
        ⟨hx, hy⟩ | ⟨children, children', hx, hy, hchildren⟩
      · simp only [hx, hy]
      · simp only [hx, hy, bne, hE.beq_eq hnm.id hij, ih hchildren room]

theorem Twins.tryUpdate {f g : Nat → Forest → Except ChangeFault Forest}
    (h : Twins E nodes nodes') (hscope : List.Forall₂ E scope scope') (room : Nat)
    (hfg : ∀ {room} {ns ms : List Node}, Twins E ns ms →
      Alike (Twins E) (f room ns) (g room ms)) :
    Alike (Twins E) (Forest.tryUpdate f room scope nodes)
      (Forest.tryUpdate g room scope' nodes') := by
  induction hscope generalizing room nodes nodes' with
  | nil =>
    cases room with
    | zero => exact .error _
    | succ room => exact hfg h
  | @cons i j rest rest' hij hrest ih =>
    cases room with
    | zero => exact .error _
    | succ room =>
      rw [Forest.tryUpdate, Forest.tryUpdate]
      refine alike_mapM h fun n m hnm ↦ ?_
      rcases none_or_some_of_rel hnm.children? with
        ⟨hx, hy⟩ | ⟨children, children', hx, hy, hchildren⟩
      · simp only [hx, hy]
        exact .ok hnm
      · simp only [hx, hy, hE.beq_eq hnm.id hij]
        split
        case isTrue => exact (ih hchildren room).map fun _ _ hchanged ↦ hnm.withChildren hchanged
        case isFalse => exact .ok hnm

theorem Twins.add {name kindName : String} {value : Raw} (h : Twins E root root')
    (hscope : List.Forall₂ E scope scope') (hsupply : Supply.Twin E u v)
    (hvalue : ¬ value.HoldsNode) :
    Alike (Twins E) (Forest.add u root name kindName value scope)
      (Forest.add v root' name kindName value scope') := by
  unfold Forest.add
  rw [h.isListAt_eq hE hscope, (h.within hE hscope).length_eq]
  cases hcoerce : coerce kindName value with
  | error fault =>
    split
    case isTrue => exact .error _
    case isFalse =>
      split
      case isTrue => exact .error _
      case isFalse => exact .error _
  | ok payload =>
    have htwin : payload.Twin E payload := (isBare_of_coerce hvalue hcoerce).twin
    split
    case isTrue =>
      refine .ok (h.update hE hscope fun hns ↦ ?_)
      exact List.rel_append hns (.cons (.intro hsupply.id rfl htwin) .nil)
    case isFalse =>
      split
      case isTrue => exact .error _
      case isFalse =>
        refine .ok (h.update hE hscope fun hns ↦ ?_)
        exact Twins.putNamed hns (.intro hsupply.id rfl htwin)

theorem Twins.boundedAdd {name kindName : String} {value : Raw} (h : Twins E root root')
    (hscope : List.Forall₂ E scope scope') (hsupply : Supply.Twin E u v)
    (hvalue : ¬ value.HoldsNode) :
    Alike (Twins E) (Forest.boundedAdd u root name kindName value scope)
      (Forest.boundedAdd v root' name kindName value scope') := by
  rw [boundedAdd_eq, boundedAdd_eq, h.isListAt_eq hE hscope, h.fits_eq hE hscope]
  refine (alike_refl _).bind fun _ _ _ ↦ ?_
  refine ((h.add hE hscope hsupply hvalue).mapError _).bind fun new new' hnew ↦ ?_
  split
  case isTrue => exact .ok hnew
  case isFalse => exact .error _

theorem Twins.editAll {value : Raw} {room : Nat} (h : Twins E nodes nodes') (hij : E i j)
    (hvalue : ¬ value.HoldsNode) :
    Alike (Twins E) (Forest.editAll i value room nodes) (Forest.editAll j value room nodes') := by
  refine alike_mapM h fun n m hnm ↦ ?_
  rw [hE.beq_eq hnm.id hij, hnm.isContainer_eq, hnm.kind_eq, hnm.name_eq]
  split
  case isFalse => exact .ok hnm
  case isTrue =>
    split
    case isTrue => exact .error _
    case isFalse =>
      cases hcoerce : m.kind.boundedCoerce room value with
      | error fault => exact .error _
      | ok payload =>
        have hbare := Kind.isBare_of_coerce hvalue (Kind.coerce_of_boundedCoerce hcoerce)
        exact .ok (.intro hnm.id rfl hbare.twin)

theorem Twins.edit {value : Raw} (h : Twins E root root') (hij : E i j)
    (hscope : List.Forall₂ E scope scope') (hvalue : ¬ value.HoldsNode) :
    Alike (Twins E) (Forest.edit root i value scope) (Forest.edit root' j value scope') :=
  h.tryUpdate hE hscope callLimit fun hns ↦ Twins.editAll hE hns hij hvalue

theorem Twins.delete (h : Twins E root root') (hij : E i j) (hscope : List.Forall₂ E scope scope') :
    Twins E (Forest.delete root i scope) (Forest.delete root' j scope') := by
  refine h.update hE hscope fun hns ↦ List.rel_filter ?_ hns
  intro n m hnm
  simp only [bne, hE.beq_eq hnm.id hij]

theorem Twins.boundedDelete (h : Twins E root root') (hij : E i j)
    (hscope : List.Forall₂ E scope scope') :
    Alike (Twins E) (Forest.boundedDelete root i scope) (Forest.boundedDelete root' j scope') := by
  unfold Forest.boundedDelete boundedUpdate
  rw [h.fits_eq hE hscope]
  split
  case isTrue => exact .ok (h.delete hE hij hscope)
  case isFalse => exact .error _

theorem Twins.contains_eq (h : Twins E nodes nodes') (hij : E i j) :
    (nodes.map (·.id)).contains i = (nodes'.map (·.id)).contains j := by
  induction h with
  | nil => rfl
  | cons hnm hrest ih =>
    rw [List.map_cons, List.map_cons, List.contains_cons, List.contains_cons, ih,
      hE.beq_eq hij hnm.id]

end Scopes

end Forest

end KeyTree
