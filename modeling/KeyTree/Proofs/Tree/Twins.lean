import KeyTree.Formula.Reference
import KeyTree.Proofs.Document.Record
import KeyTree.Proofs.Number.Bits
import KeyTree.Proofs.Tree.Identity
import Mathlib.Logic.Relation

/-!
# Trees that cannot be told apart

Twins differ in their identities and in the signs of zeros only. An identity of one tree stands for
one of the other, and different identities for different ones. Whatever is shown or exported of a
tree is the same for its twin.
-/

namespace KeyTree

/-! ## Numbers but for the sign of zero -/

namespace Quanta

theorem withoutNegativeZero_eq (x : Float) :
    withoutNegativeZero x = x ∨ magnitudeBits x = 0 ∧ withoutNegativeZero x = 0 := by
  unfold withoutNegativeZero
  split
  case isTrue hzero => exact .inr ⟨hzero, rfl⟩
  case isFalse => exact .inl rfl

theorem integer?_of_magnitudeBits_eq_zero {x : Float} (h : magnitudeBits x = 0) :
    integer? x = some 0 := by
  have hnone : ofBits 0 = 0 := rfl
  have hwhole : magnitudeBits x < infinityBits ∧ ofFloat x % one = 0 := by
    rw [ofFloat, h, hnone]
    exact ⟨Nat.mul_pos (Nat.succ_pos _) (Nat.pow_pos Nat.two_pos), Nat.zero_mod one⟩
  rw [integer?, if_pos hwhole, ofFloat, h, hnone, Nat.zero_div]
  simp

theorem integer?_withoutNegativeZero (x : Float) :
    integer? (withoutNegativeZero x) = integer? x := by
  rcases withoutNegativeZero_eq x with h | ⟨hzero, h⟩
  · rw [h]
  · rw [h, integer?_of_magnitudeBits_eq_zero hzero]
    exact integer?_of_magnitudeBits_eq_zero (by decide)

/-- Nothing tells the two zeros apart in a comparison. -/
theorem beq_toFloat_zero (negative : Bool) (y : Float) : (toFloat negative 0 == y) = (0 == y) := by
  have hunpack (negative : Bool) : ∃ sign, (toFloat negative 0).toModel.unpack = .zero sign := by
    cases negative
    · exact ⟨_, rfl⟩
    · exact ⟨_, rfl⟩
  obtain ⟨sign, hsign⟩ := hunpack negative
  obtain ⟨plus, hplus⟩ := hunpack false
  rw [← toFloat_zero]
  change (toFloat negative 0).toModel.unpack.beq y.toModel.unpack =
    (toFloat false 0).toModel.unpack.beq y.toModel.unpack
  rw [hsign, hplus]
  cases y.toModel.unpack with
  | notANumber => rfl
  | zero => rfl
  | infinity sign => cases sign <;> rfl
  | finite sign => cases sign <;> rfl

theorem beq_withoutNegativeZero (x y : Float) : (withoutNegativeZero x == y) = (x == y) := by
  rcases withoutNegativeZero_eq x with h | ⟨hzero, h⟩
  · rw [h]
  · rw [h, ← toFloat_magnitudeBits x, hzero, beq_toFloat_zero]

/-- Numbers that differ in the sign of zero at most are zeros, or they are the same. -/
theorem integer?_eq_zero_or {x y : Float} (h : withoutNegativeZero x = withoutNegativeZero y) :
    (integer? x = some 0 ∧ integer? y = some 0) ∨ x = y := by
  have hwhole : integer? x = integer? y := by
    rw [← integer?_withoutNegativeZero x, h, integer?_withoutNegativeZero]
  rcases withoutNegativeZero_eq x with hx | ⟨hzero, -⟩
  · rcases withoutNegativeZero_eq y with hy | ⟨hzero, -⟩
    · rw [hx, hy] at h
      exact .inr h
    · have hy := integer?_of_magnitudeBits_eq_zero hzero
      exact .inl ⟨hwhole.trans hy, hy⟩
  · have hx := integer?_of_magnitudeBits_eq_zero hzero
    exact .inl ⟨hx, hwhole.symm.trans hx⟩

end Quanta

/-! ## Leaves but for the signs of zeros -/

namespace Leaf

/-- The same value, but for the sign of a zero. -/
def Twin (v w : Leaf) : Prop := v.withoutNegativeZero = w.withoutNegativeZero

variable {v w : Leaf}

theorem twin_withoutNegativeZero (v : Leaf) : v.withoutNegativeZero.Twin v := by
  unfold Twin
  cases v with
  | number x =>
    rcases Quanta.withoutNegativeZero_eq x with h | ⟨-, h⟩
    · rw [withoutNegativeZero, h, withoutNegativeZero, h]
    · have hzero : Quanta.withoutNegativeZero 0 = 0 := by decide
      rw [withoutNegativeZero, h, withoutNegativeZero, hzero]
  | _ => rfl

/-- Twins are equal, or they are numbers. -/
theorem Twin.eq_or (h : v.Twin w) : v = w ∨ ∃ x y, v = .number x ∧ w = .number y ∧
    Quanta.withoutNegativeZero x = Quanta.withoutNegativeZero y := by
  cases v with
  | number x =>
    cases w with
    | number y => exact .inr ⟨x, y, rfl, rfl, Leaf.number.inj h⟩
    | _ => cases h
  | _ =>
    cases w with
    | number y => cases h
    | _ => exact .inl h

theorem Twin.kind_eq (h : v.Twin w) : v.kind = w.kind := by
  rcases h.eq_or with rfl | ⟨x, y, rfl, rfl, -⟩
  · rfl
  · rfl

theorem Twin.toJson_eq (h : v.Twin w) : v.toJson = w.toJson := by
  rcases h.eq_or with rfl | ⟨x, y, rfl, rfl, hxy⟩
  · rfl
  · rcases Quanta.integer?_eq_zero_or hxy with ⟨hx, hy⟩ | rfl
    · rw [toJson, toJson, Number.toJson, Number.toJson, hx, hy]
    · rfl

theorem Twin.rendered_eq (h : v.Twin w) : v.rendered = w.rendered := by
  rcases h.eq_or with rfl | ⟨x, y, rfl, rfl, hxy⟩
  · rfl
  · rcases Quanta.integer?_eq_zero_or hxy with ⟨hx, hy⟩ | rfl
    · rw [rendered, rendered, Number.shown, Number.shown, hx, hy]
      rfl
    · rfl

theorem Twin.same_eq (h : v.Twin w) (leaf : Leaf) : v.same leaf = w.same leaf := by
  rcases h.eq_or with rfl | ⟨x, y, rfl, rfl, hxy⟩
  · rfl
  · cases leaf with
    | number z =>
      rw [same, same, ← Quanta.beq_withoutNegativeZero x, hxy, Quanta.beq_withoutNegativeZero]
    | _ => rfl

end Leaf

/-! ## Twins -/

mutual

/-- Nodes that differ in the signs of zeros and in their identities only. An identity of the second
stands for one of the first if `E` says so. -/
inductive Node.Twin (E : String → String → Prop) : Node → Node → Prop
  | intro {n m : Node} (hid : E n.id m.id) (hname : n.name = m.name)
      (hpayload : Payload.Twin E n.payload m.payload) : Node.Twin E n m

inductive Payload.Twin (E : String → String → Prop) : Payload Node → Payload Node → Prop
  | leaf {v w : Leaf} (h : v.Twin w) : Payload.Twin E (.leaf v) (.leaf w)
  | branch (shape : Shape) {children children' : List Node}
      (h : List.Forall₂ (Node.Twin E) children children') :
      Payload.Twin E (.branch shape children) (.branch shape children')

end

/-- Siblings that are twins, each of the one in its place. -/
abbrev Forest.Twins (E : String → String → Prop) : List Node → List Node → Prop :=
  List.Forall₂ (Node.Twin E)

/-- Different identities stand for different ones. -/
def IsPairing (E : String → String → Prop) : Prop :=
  ∀ ⦃i j i' j' : String⦄, E i j → E i' j' → (i = i' ↔ j = j')

/-- The identities that one supply gives out stand for those of the other. -/
def Supply.Twin (E : String → String → Prop) (u v : Supply) : Prop :=
  ∀ i, E (idOf (u.next + i)) (idOf (v.next + i))

variable {E F : String → String → Prop}

theorem IsPairing.comp (hE : IsPairing E) (hF : IsPairing F) : IsPairing (Relation.Comp E F) := by
  rintro i k i' k' ⟨j, hij, hjk⟩ ⟨j', hij', hjk'⟩
  exact (hE hij hij').trans (hF hjk hjk')

theorem IsPairing.beq_eq {i j i' j' : String} (hE : IsPairing E) (h : E i j) (h' : E i' j') :
    (i == i') = (j == j') := by
  rw [Bool.eq_iff_iff, beq_iff_eq, beq_iff_eq]
  exact hE h h'

/-- Identities that are given out under different numbers are different. -/
theorem isPairing_idOf {f g : Nat → Nat} (hf : Function.Injective f) (hg : Function.Injective g) :
    IsPairing fun a b ↦ ∃ i, a = Supply.idOf (f i) ∧ b = Supply.idOf (g i) := by
  have hidOf : Function.Injective Supply.idOf := fun _ _ heq ↦ Supply.idOf_injective heq
  rintro _ _ _ _ ⟨i, rfl, rfl⟩ ⟨j, rfl, rfl⟩
  rw [hidOf.eq_iff, hidOf.eq_iff, hf.eq_iff, hg.eq_iff]

namespace Supply

variable {u v : Supply}

theorem Twin.skip (h : Twin E u v) (count : Nat) : Twin E (u.skip count) (v.skip count) := by
  intro i
  have hi := h (count + i)
  rwa [← Nat.add_assoc, ← Nat.add_assoc] at hi

theorem Twin.id (h : Twin E u v) : E u.id v.id := h 0

end Supply

section Fields

variable {n m : Node} {p q : Payload Node} {nodes nodes' : List Node}

theorem Node.Twin.id (h : n.Twin E m) : E n.id m.id := by
  cases h
  assumption

theorem Node.Twin.name_eq (h : n.Twin E m) : n.name = m.name := by
  cases h
  assumption

theorem Node.Twin.payload (h : n.Twin E m) : n.payload.Twin E m.payload := by
  cases h
  assumption

theorem Payload.Twin.kind_eq (h : p.Twin E q) : p.kind = q.kind := by
  cases h with
  | leaf h => exact h.kind_eq
  | branch shape h => rfl

theorem Payload.Twin.children? (h : p.Twin E q) :
    Option.Rel (Forest.Twins E) p.children? q.children? := by
  cases h with
  | leaf h => exact .none
  | branch shape h => exact .some h

theorem Payload.Twin.withChildren (h : p.Twin E q) (hnodes : Forest.Twins E nodes nodes') :
    (p.withChildren nodes).Twin E (q.withChildren nodes') := by
  cases h with
  | leaf h => exact .leaf h
  | branch shape h => exact .branch shape hnodes

theorem Node.Twin.kind_eq (h : n.Twin E m) : n.kind = m.kind := h.payload.kind_eq

theorem Node.Twin.children? (h : n.Twin E m) :
    Option.Rel (Forest.Twins E) n.children? m.children? := h.payload.children?

theorem Node.Twin.withChildren (h : n.Twin E m) (hnodes : Forest.Twins E nodes nodes') :
    (n.withChildren nodes).Twin E (m.withChildren nodes') :=
  .intro h.id h.name_eq (h.payload.withChildren hnodes)

theorem Node.Twin.isContainer_eq (h : n.Twin E m) : n.isContainer = m.isContainer :=
  isSome_eq_of_rel h.children?

end Fields

/-! ## Ways to twins -/

mutual

theorem Node.Twin.trans {n m k : Node} (h : n.Twin E m) (h' : m.Twin F k) :
    n.Twin (Relation.Comp E F) k := by
  refine .intro ⟨m.id, h.id, h'.id⟩ (h.name_eq.trans h'.name_eq) ?_
  have hpayload := h.payload
  have hpayload' := h'.payload
  match n, m, k with
  | ⟨_, _, .leaf v⟩, ⟨_, _, .leaf w⟩, ⟨_, _, .leaf z⟩ =>
    cases hpayload with
    | leaf hvalue =>
      cases hpayload' with
      | leaf hvalue' => exact .leaf (hvalue.trans hvalue')
  | ⟨_, _, .branch shape children⟩, ⟨_, _, .branch _ children'⟩, ⟨_, _, .branch _ children''⟩ =>
    cases hpayload with
    | branch _ hchildren =>
      cases hpayload' with
      | branch _ hchildren' => exact .branch shape (Forest.Twins.trans hchildren hchildren')

theorem Forest.Twins.trans {a b c : List Node} (h : Forest.Twins E a b) (h' : Forest.Twins F b c) :
    Forest.Twins (Relation.Comp E F) a c := by
  match a, b, c, h, h' with
  | [], [], [], .nil, .nil => exact .nil
  | n :: a, m :: b, k :: c, .cons h hs, .cons h' hs' =>
    exact .cons (Node.Twin.trans h h') (Forest.Twins.trans hs hs')

end

mutual

/-- Without its negative zeros a node is still a twin. -/
theorem Node.Twin.mapLeaves {n m : Node} (h : n.Twin E m) :
    (n.mapLeaves Leaf.withoutNegativeZero).Twin E m := by
  have hpayload := h.payload
  match n, m with
  | ⟨_, _, .leaf v⟩, ⟨_, _, .leaf w⟩ =>
    cases hpayload with
    | leaf hvalue => exact .intro h.id h.name_eq (.leaf (v.twin_withoutNegativeZero.trans hvalue))
  | ⟨_, _, .branch shape children⟩, ⟨_, _, .branch _ children'⟩ =>
    cases hpayload with
    | branch _ hchildren =>
      exact .intro h.id h.name_eq (.branch shape (Forest.Twins.mapLeaves hchildren))

theorem Forest.Twins.mapLeaves {nodes nodes' : List Node} (h : Forest.Twins E nodes nodes') :
    Forest.Twins E (Forest.mapLeaves Leaf.withoutNegativeZero nodes) nodes' := by
  match nodes, nodes', h with
  | [], [], .nil => exact .nil
  | n :: nodes, m :: nodes', .cons h hs =>
    exact .cons (Node.Twin.mapLeaves h) (Forest.Twins.mapLeaves hs)

end

mutual

theorem Node.ids_mapLeaves (f : Leaf → Leaf) (n : Node) : (n.mapLeaves f).ids = n.ids := by
  match n with
  | ⟨id, name, .leaf value⟩ => rfl
  | ⟨id, name, .branch shape children⟩ =>
    rw [Node.mapLeaves, Node.ids, Node.ids, Forest.ids_mapLeaves f children]

theorem Forest.ids_mapLeaves (f : Leaf → Leaf) (nodes : List Node) :
    Forest.ids (Forest.mapLeaves f nodes) = Forest.ids nodes := by
  match nodes with
  | [] => rfl
  | n :: nodes =>
    rw [Forest.mapLeaves, Forest.ids, Forest.ids, Node.ids_mapLeaves f n,
      Forest.ids_mapLeaves f nodes]

end

mutual

theorem Node.hasUniqueNames_mapLeaves (f : Leaf → Leaf) (n : Node)
    (h : n.payload.HasUniqueNames) : (n.mapLeaves f).payload.HasUniqueNames := by
  match n with
  | ⟨id, name, .leaf value⟩ => exact .leaf (f value)
  | ⟨id, name, .branch shape children⟩ =>
    rw [Payload.hasUniqueNames_branch] at h
    rw [Node.mapLeaves, Payload.hasUniqueNames_branch]
    exact ⟨(Shape.admits_congr (Forest.names_mapLeaves f children)).2 h.1,
      Forest.hasUniqueNames_mapLeaves f children h.2⟩

theorem Forest.hasUniqueNames_mapLeaves (f : Leaf → Leaf) (nodes : List Node)
    (h : ∀ n ∈ nodes, n.payload.HasUniqueNames) :
    ∀ n ∈ Forest.mapLeaves f nodes, n.payload.HasUniqueNames := by
  match nodes with
  | [] => exact h
  | n :: nodes =>
    rw [List.forall_mem_cons] at h
    rw [Forest.mapLeaves, List.forall_mem_cons]
    exact ⟨Node.hasUniqueNames_mapLeaves f n h.1, Forest.hasUniqueNames_mapLeaves f nodes h.2⟩

end

mutual

/-- What two supplies label is twins, if what the one gives out stands for what the other does. -/
theorem Supply.label_twin {u v : Supply} (n : Node)
    (h : ∀ i < n.ids.length, E (idOf (u.next + i)) (idOf (v.next + i))) :
    (u.label n).1.Twin E (v.label n).1 := by
  match n with
  | ⟨_, name, .leaf value⟩ => exact .intro (h 0 Nat.one_pos) rfl (.leaf rfl)
  | ⟨_, name, .branch shape children⟩ =>
    refine .intro (h 0 (Nat.succ_pos _)) rfl (.branch shape (Supply.labelAll_twins children ?_))
    intro i hi
    have hnext := h (1 + i) (by simp only [Node.ids, List.length_cons]; omega)
    rwa [← Nat.add_assoc, ← Nat.add_assoc] at hnext

theorem Supply.labelAll_twins {u v : Supply} (nodes : List Node)
    (h : ∀ i < (Forest.ids nodes).length, E (idOf (u.next + i)) (idOf (v.next + i))) :
    Forest.Twins E (u.labelAll nodes).1 (v.labelAll nodes).1 := by
  match nodes with
  | [] => exact .nil
  | n :: nodes =>
    simp only [Forest.ids_cons, List.length_append] at h
    refine .cons (Supply.label_twin n fun i hi ↦ h i (by omega)) (Supply.labelAll_twins nodes ?_)
    intro i hi
    rw [(Supply.label_spec u n).2.1, (Supply.label_spec v n).2.1]
    have hnext := h (n.ids.length + i) (by omega)
    rwa [← Nat.add_assoc, ← Nat.add_assoc] at hnext

end

/-! ## What is the same for twins -/

mutual

theorem Node.Twin.toJson_eq {n m : Node} (h : n.Twin E m) : n.toJson = m.toJson := by
  have hpayload := h.payload
  match n, m with
  | ⟨_, _, .leaf v⟩, ⟨_, _, .leaf w⟩ =>
    cases hpayload with
    | leaf hvalue => exact hvalue.toJson_eq
  | ⟨_, _, .branch .dictionary children⟩, ⟨_, _, .branch _ children'⟩ =>
    cases hpayload with
    | branch _ hchildren =>
      rw [Node.toJson, Node.toJson, (Forest.Twins.items_eq hchildren).1]
  | ⟨_, _, .branch .list children⟩, ⟨_, _, .branch _ children'⟩ =>
    cases hpayload with
    | branch _ hchildren =>
      rw [Node.toJson, Node.toJson, (Forest.Twins.items_eq hchildren).2]

theorem Forest.Twins.items_eq {nodes nodes' : List Node} (h : Forest.Twins E nodes nodes') :
    Forest.members nodes = Forest.members nodes' ∧ Forest.items nodes = Forest.items nodes' := by
  match nodes, nodes', h with
  | [], [], .nil => exact ⟨rfl, rfl⟩
  | n :: nodes, m :: nodes', .cons h hs =>
    obtain ⟨hmembers, hitems⟩ := Forest.Twins.items_eq hs
    rw [Forest.members, Forest.items, Node.Twin.toJson_eq h, h.name_eq, hmembers, hitems]
    exact ⟨rfl, rfl⟩

end

mutual

theorem Node.Twin.height_eq {n m : Node} (h : n.Twin E m) : n.height = m.height := by
  have hpayload := h.payload
  match n, m with
  | ⟨_, _, .leaf v⟩, ⟨_, _, .leaf w⟩ => rfl
  | ⟨_, _, .branch shape children⟩, ⟨_, _, .branch _ children'⟩ =>
    cases hpayload with
    | branch _ hchildren => rw [Node.height, Node.height, Forest.Twins.height_eq hchildren]

theorem Forest.Twins.height_eq {nodes nodes' : List Node} (h : Forest.Twins E nodes nodes') :
    Forest.height nodes = Forest.height nodes' := by
  match nodes, nodes', h with
  | [], [], .nil => rfl
  | n :: nodes, m :: nodes', .cons h hs =>
    rw [Forest.height, Forest.height, Node.Twin.height_eq h, Forest.Twins.height_eq hs]

end

mutual

theorem Node.Twin.exportCalls_eq {n m : Node} (h : n.Twin E m) : n.exportCalls = m.exportCalls := by
  have hpayload := h.payload
  match n, m with
  | ⟨_, _, .leaf v⟩, ⟨_, _, .leaf w⟩ => rw [Node.exportCalls, Node.exportCalls]
  | ⟨_, _, .branch shape children⟩, ⟨_, _, .branch _ children'⟩ =>
    cases hpayload with
    | branch _ hchildren =>
      have hcalls := Forest.Twins.exportCalls_eq hchildren
      cases shape <;> rw [Node.exportCalls, Node.exportCalls, hcalls]

theorem Forest.Twins.exportCalls_eq {nodes nodes' : List Node} (h : Forest.Twins E nodes nodes') :
    Forest.exportCalls nodes = Forest.exportCalls nodes' := by
  match nodes, nodes', h with
  | [], [], .nil => rfl
  | n :: nodes, m :: nodes', .cons h hs =>
    rw [Forest.exportCalls, Forest.exportCalls, Node.Twin.exportCalls_eq h,
      Forest.Twins.exportCalls_eq hs]

end

theorem Forest.Twins.isExportable_eq {root root' : Forest} (h : Forest.Twins E root root') :
    root.isExportable = root'.isExportable := by
  rw [isExportable, isExportable, h.exportCalls_eq]

theorem Forest.Twins.exportText_eq {root root' : Forest} (h : Forest.Twins E root root')
    (indent : Option Int) : root.exportText indent = root'.exportText indent := by
  unfold Forest.exportText Forest.toJson
  rw [(Forest.Twins.items_eq h).1]

theorem Node.Twin.rendered_eq {n m : Node} (h : n.Twin E m) : n.rendered = m.rendered := by
  have hpayload := h.payload
  match n, m with
  | ⟨_, _, .leaf v⟩, ⟨_, _, .leaf w⟩ =>
    cases hpayload with
    | leaf hvalue => exact hvalue.rendered_eq
  | ⟨_, _, .branch shape children⟩, ⟨_, _, .branch _ children'⟩ =>
    rw [Node.rendered, Node.rendered, h.toJson_eq]

end KeyTree
