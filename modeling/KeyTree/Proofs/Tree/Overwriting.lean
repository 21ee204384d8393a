import KeyTree.Proofs.Tree.Put
import KeyTree.Proofs.Tree.TwinEdits

/-!
# The last payload at a path

Of two payloads that are put at one path, the second is left. The tree is the one that the second
makes alone, but for the identities of nodes that are new and of those that come with a payload.
Putting one payload twice does nothing the second time, unless it holds a number that is none, which
does not equal itself.
-/

namespace KeyTree

variable {E F : String → String → Prop}

/-! ## Equal payloads are twins -/

theorem Quanta.withoutNegativeZero_eq_of_beq {x y : Float} (h : (x == y) = true) :
    withoutNegativeZero x = withoutNegativeZero y := by
  have hzeros : withoutNegativeZero 0 = withoutNegativeZero (-0) := by decide
  obtain ⟨-, -, rfl | ⟨rfl, rfl⟩ | ⟨rfl, rfl⟩⟩ := Float.beq_iff_ne_nan_and_eq.1 h
  · rfl
  · exact hzeros
  · exact hzeros.symm

theorem Leaf.twin_of_same {v w : Leaf} (h : v.same w = true) : v.Twin w := by
  cases v with
  | number x =>
    cases w with
    | number y => exact congrArg Leaf.number (Quanta.withoutNegativeZero_eq_of_beq h)
    | _ => cases h
  | _ =>
    cases w <;> simp_all [same, Twin]

mutual

theorem Node.twin_of_same {n m : Node} (h : n.same m = true) : n.Twin (fun _ _ ↦ True) m := by
  match n, m with
  | ⟨_, _, .leaf v⟩, ⟨_, _, .leaf w⟩ =>
    rw [Node.same, Bool.and_eq_true, beq_iff_eq] at h
    exact .intro trivial h.1 (.leaf (Leaf.twin_of_same h.2))
  | ⟨_, _, .branch s children⟩, ⟨_, _, .branch t children'⟩ =>
    rw [Node.same, Bool.and_eq_true, Bool.and_eq_true, beq_iff_eq, beq_iff_eq] at h
    obtain ⟨⟨hname, rfl⟩, hchildren⟩ := h
    exact .intro trivial hname (.branch s (Forest.twins_of_same hchildren))
  | ⟨_, _, .leaf v⟩, ⟨_, _, .branch t children'⟩ => simp [Node.same] at h
  | ⟨_, _, .branch s children⟩, ⟨_, _, .leaf w⟩ => simp [Node.same] at h

theorem Forest.twins_of_same {nodes nodes' : List Node} (h : Forest.same nodes nodes' = true) :
    Forest.Twins (fun _ _ ↦ True) nodes nodes' := by
  match nodes, nodes' with
  | [], [] => exact .nil
  | n :: nodes, m :: nodes' =>
    rw [Forest.same, Bool.and_eq_true] at h
    exact .cons (Node.twin_of_same h.1) (Forest.twins_of_same h.2)
  | [], m :: nodes' => simp [Forest.same] at h
  | n :: nodes, [] => simp [Forest.same] at h

end

theorem Payload.twin_of_same {p q : Payload Node} (h : p.same q = true) :
    p.Twin (fun _ _ ↦ True) q := by
  match p, q with
  | .leaf v, .leaf w => exact .leaf (Leaf.twin_of_same h)
  | .branch s children, .branch t children' =>
    rw [Payload.same, Bool.and_eq_true, beq_iff_eq] at h
    obtain ⟨rfl, hchildren⟩ := h
    exact .branch s (Forest.twins_of_same hchildren)
  | .leaf v, .branch t children' => cases h
  | .branch s children, .leaf w => cases h

/-! ## Twins under other relations of identities -/

mutual

theorem Node.Twin.refl (hE : ∀ i, E i i) (n : Node) : n.Twin E n := by
  match n with
  | ⟨_, _, .leaf v⟩ => exact .intro (hE _) rfl (.leaf rfl)
  | ⟨_, _, .branch shape children⟩ =>
    exact .intro (hE _) rfl (.branch shape (Forest.Twins.refl hE children))

theorem Forest.Twins.refl (hE : ∀ i, E i i) (nodes : List Node) : Forest.Twins E nodes nodes := by
  match nodes with
  | [] => exact .nil
  | n :: nodes => exact .cons (Node.Twin.refl hE n) (Forest.Twins.refl hE nodes)

end

theorem Payload.Twin.refl (hE : ∀ i, E i i) (p : Payload Node) : p.Twin E p :=
  (Node.Twin.refl hE ⟨"", "", p⟩).payload

mutual

theorem Node.Twin.symm {n m : Node} (h : n.Twin E m) : m.Twin (fun i j ↦ E j i) n := by
  have hpayload := h.payload
  match n, m with
  | ⟨_, _, .leaf v⟩, ⟨_, _, .leaf w⟩ =>
    cases hpayload with
    | leaf hvalue => exact .intro h.id h.name_eq.symm (.leaf (Eq.symm hvalue))
  | ⟨_, _, .branch shape children⟩, ⟨_, _, .branch _ children'⟩ =>
    cases hpayload with
    | branch _ hchildren =>
      exact .intro h.id h.name_eq.symm (.branch shape (Forest.Twins.symm hchildren))

theorem Forest.Twins.symm {nodes nodes' : List Node} (h : Forest.Twins E nodes nodes') :
    Forest.Twins (fun i j ↦ E j i) nodes' nodes := by
  match nodes, nodes', h with
  | [], [], .nil => exact .nil
  | n :: nodes, m :: nodes', .cons h hs => exact .cons (Node.Twin.symm h) (Forest.Twins.symm hs)

end

theorem Payload.Twin.trans {o p q : Payload Node} (h : o.Twin E p) (h' : p.Twin F q) :
    o.Twin (Relation.Comp E F) q := by
  cases h with
  | leaf hvalue =>
    cases h' with
    | leaf hvalue' => exact .leaf (Eq.trans hvalue hvalue')
  | branch shape hchildren =>
    cases h' with
    | branch _ hchildren' => exact .branch shape (Forest.Twins.trans hchildren hchildren')

theorem Payload.Twin.symm {p q : Payload Node} (h : p.Twin E q) : q.Twin (fun i j ↦ E j i) p := by
  cases h with
  | leaf hvalue => exact .leaf (Eq.symm hvalue)
  | branch shape hchildren => exact .branch shape (Forest.Twins.symm hchildren)

mutual

/-- Twins are twins under any relation in which the identities of the first stand for all others. -/
theorem Node.Twin.of_ids {n m : Node} (h : n.Twin E m) (hids : ∀ i ∈ n.ids, ∀ j, F i j) :
    n.Twin F m := by
  have hpayload := h.payload
  match n, m with
  | ⟨_, _, .leaf v⟩, ⟨_, _, .leaf w⟩ =>
    cases hpayload with
    | leaf hvalue => exact .intro (hids _ List.mem_cons_self _) h.name_eq (.leaf hvalue)
  | ⟨_, _, .branch shape children⟩, ⟨_, _, .branch _ children'⟩ =>
    cases hpayload with
    | branch _ hchildren =>
      rw [Node.ids, List.forall_mem_cons] at hids
      exact .intro (hids.1 _) h.name_eq (.branch shape (Forest.Twins.of_ids hchildren hids.2))

theorem Forest.Twins.of_ids {nodes nodes' : List Node} (h : Forest.Twins E nodes nodes')
    (hids : ∀ i ∈ Forest.ids nodes, ∀ j, F i j) : Forest.Twins F nodes nodes' := by
  match nodes, nodes', h with
  | [], [], .nil => exact .nil
  | n :: nodes, m :: nodes', .cons h hs =>
    rw [Forest.ids, List.forall_mem_append] at hids
    exact .cons (Node.Twin.of_ids h hids.1) (Forest.Twins.of_ids hs hids.2)

end

theorem Payload.Twin.of_ids {p q : Payload Node} (h : p.Twin E q)
    (hids : ∀ i ∈ p.ids, ∀ j, F i j) : p.Twin F q := by
  cases h with
  | leaf hvalue => exact .leaf hvalue
  | branch shape hchildren => exact .branch shape (Forest.Twins.of_ids hchildren hids)

/-! ## Numbers that equal themselves -/

mutual

/-- The values in a node, in order. -/
def Node.leaves : Node → List Leaf
  | ⟨_, _, .leaf value⟩ => [value]
  | ⟨_, _, .branch _ children⟩ => Forest.leaves children

def Forest.leaves : List Node → List Leaf
  | [] => []
  | n :: ns => n.leaves ++ Forest.leaves ns

end

namespace Payload

def leaves : Payload Node → List Leaf
  | leaf value => [value]
  | branch _ children => Forest.leaves children

/-- Whether all numbers in a payload are numbers, each of which equals itself. -/
def HasNumbers (p : Payload Node) : Prop := ∀ x : Float, .number x ∈ p.leaves → x.isNaN = false

end Payload

theorem Leaf.same_self {v : Leaf} (h : ∀ x : Float, .number x = v → x.isNaN = false) :
    v.same v = true := by
  cases v with
  | number x =>
    have hnumber := h x rfl
    rw [Float.isNaN_eq_decide_eq_nan, decide_eq_false_iff_not] at hnumber
    exact Float.beq_self_iff.2 hnumber
  | _ => simp [same]

mutual

theorem Node.same_self (n : Node) (h : ∀ x : Float, .number x ∈ n.leaves → x.isNaN = false) :
    n.same n = true := by
  match n with
  | ⟨_, _, .leaf v⟩ =>
    rw [Node.same, beq_self_eq_true, Bool.true_and]
    exact Leaf.same_self fun x hx ↦ h x (List.mem_singleton.2 hx)
  | ⟨_, _, .branch shape children⟩ =>
    rw [Node.same, beq_self_eq_true, beq_self_eq_true, Bool.true_and, Bool.true_and]
    exact Forest.same_self children h

theorem Forest.same_self (nodes : List Node)
    (h : ∀ x : Float, .number x ∈ Forest.leaves nodes → x.isNaN = false) :
    Forest.same nodes nodes = true := by
  match nodes with
  | [] => rfl
  | n :: nodes =>
    rw [Forest.same, Node.same_self n fun x hx ↦ h x (List.mem_append_left _ hx),
      Forest.same_self nodes fun x hx ↦ h x (List.mem_append_right _ hx), Bool.and_self]

end

namespace Payload

theorem HasNumbers.same_self {p : Payload Node} (h : p.HasNumbers) : p.same p = true := by
  cases p with
  | leaf v => exact Leaf.same_self fun x hx ↦ h x (List.mem_singleton.2 hx)
  | branch shape children =>
    rw [same, beq_self_eq_true, Bool.true_and]
    exact Forest.same_self children h

/-! ## One payload put over another -/

/-- What a node holds once a payload is put over its own: an equal one stays. -/
def putOver (old new : Payload Node) : Payload Node := if old.same new then old else new

theorem putOver_of_same {p q : Payload Node} (h : p.same q = true) : p.putOver q = p := if_pos h

theorem putOver_of_not_same {p q : Payload Node} (h : ¬p.same q = true) : p.putOver q = q :=
  if_neg h

theorem same_putOver {q : Payload Node} (hq : q.same q = true) (p : Payload Node) :
    (p.putOver q).same q = true := by
  by_cases h : p.same q = true
  · rwa [putOver_of_same h]
  · rwa [putOver_of_not_same h]

theorem putOver_twin (p q : Payload Node) : (p.putOver q).Twin (fun _ _ ↦ True) q := by
  by_cases h : p.same q = true
  · rw [putOver_of_same h]
    exact twin_of_same h
  · rw [putOver_of_not_same h]
    exact .refl (fun _ ↦ trivial) q

theorem mem_ids_putOver {p q : Payload Node} {i : String} (h : i ∈ (p.putOver q).ids) :
    i ∈ p.ids ++ q.ids := by
  unfold putOver at h
  split at h
  · exact List.mem_append_left _ h
  · exact List.mem_append_right _ h

variable {p q : Payload Node} (hids : ∀ i ∈ p.ids ++ q.ids, ∀ j, E i j)

include hids

theorem putOver_twin_right : (p.putOver q).Twin E q :=
  (putOver_twin p q).of_ids fun i hi ↦ hids i (mem_ids_putOver hi)

/-- The second of two payloads is left, whatever was there before. -/
theorem putOver_putOver_twin (hE : ∀ i, E i i) (o : Payload Node) :
    ((o.putOver p).putOver q).Twin E (o.putOver q) := by
  by_cases h : o.same p = true
  · rw [putOver_of_same h]
    exact .refl hE _
  · rw [putOver_of_not_same h]
    -- Both sides are equal to the second payload, and the left one has come with a payload.
    have hboth := (putOver_twin p q).trans (putOver_twin o q).symm
    exact hboth.of_ids fun i hi ↦ hids i (mem_ids_putOver hi)

end Payload

namespace Forest

variable {u v w : Supply} {p q : Payload Node} {nodes children : Forest} {head next : String}
  {rest : List String}

/-! ## Putting along a path, level by level -/

/-- Along a path, nothing is named where it starts, or it ends at a node, or a leaf blocks it, or it
goes on below a node. -/
theorem induction_along {motive : Forest → String → List String → Prop}
    (unnamed : ∀ {nodes : Forest} {head : String} (tail : List String),
      nodes.named? head = none → motive nodes head tail)
    (ends : ∀ {before : List Node} {n : Node} (after : List Node), n.name ∉ names before →
      motive (before ++ n :: after) n.name [])
    (blocked : ∀ {nodes : Forest} {head : String} {n : Node} (next : String) (rest : List String),
      nodes.named? head = some n → n.children? = none → motive nodes head (next :: rest))
    (inside : ∀ {before : List Node} {n : Node} (after : List Node) {children : Forest}
      (next : String) (rest : List String), n.name ∉ names before → n.children? = some children →
      motive children next rest → motive (before ++ n :: after) n.name (next :: rest))
    (nodes : Forest) (head : String) (tail : List String) : motive nodes head tail := by
  induction tail generalizing nodes head with
  | nil =>
    cases hnamed : nodes.named? head with
    | none => exact unnamed [] hnamed
    | some n =>
      obtain ⟨rfl, before, after, rfl, hbefore⟩ := eq_append_of_named? hnamed
      exact ends after hbefore
  | cons next rest ih =>
    cases hnamed : nodes.named? head with
    | none => exact unnamed (next :: rest) hnamed
    | some n =>
      cases hchildren : n.children? with
      | none => exact blocked next rest hnamed hchildren
      | some children =>
        obtain ⟨rfl, before, after, rfl, hbefore⟩ := eq_append_of_named? hnamed
        exact inside after next rest hbefore hchildren (ih children next)

section Levels

variable {before : List Node} {n : Node} (after : List Node) (hbefore : n.name ∉ names before)

theorem putAlong_leaf (u : Supply) (p : Payload Node) (next : String) (rest : List String)
    (hnamed : nodes.named? head = some n) (hleaf : n.children? = none) :
    putAlong u p nodes head (next :: rest) = (nodes, .blocked) := by
  rw [putAlong, hnamed]
  simp only [hleaf]

include hbefore

theorem putAlong_named (u : Supply) (p : Payload Node) :
    putAlong u p (before ++ n :: after) n.name [] =
      (before ++ { n with payload := n.payload.putOver p } :: after,
        if n.payload.same p then .unchanged else .updated) := by
  rw [putAlong, named?_insert n after hbefore]
  dsimp only
  by_cases h : n.payload.same p = true
  · rw [if_pos h, if_pos h, Payload.putOver_of_same h]
    cases n
    rfl
  · rw [if_neg h, if_neg h, Payload.putOver_of_not_same h, replaceNamed_append _ hbefore]

theorem putAlong_putAlong_named (v u : Supply) (q p : Payload Node) :
    putAlong v q (putAlong u p (before ++ n :: after) n.name []).1 n.name [] =
      (before ++ { n with payload := (n.payload.putOver p).putOver q } :: after,
        if (n.payload.putOver p).same q then .unchanged else .updated) := by
  rw [putAlong_named after hbefore]
  exact putAlong_named (n := { n with payload := n.payload.putOver p }) after hbefore v q

theorem putAlong_inside (u : Supply) (p : Payload Node) (next : String) (rest : List String)
    (hchildren : n.children? = some children) :
    putAlong u p (before ++ n :: after) n.name (next :: rest) =
      (before ++ n.withChildren (putAlong (u.skip 1) p children next rest).1 :: after,
        (putAlong (u.skip 1) p children next rest).2) := by
  rw [putAlong, named?_insert n after hbefore]
  simp only [hchildren]
  split
  case isTrue => rw [replaceNamed_append _ hbefore]
  case isFalse h =>
    have hputs := puts_putAlong (u.skip 1) p children next rest
    rw [hputs.eq_self (Bool.eq_false_of_not_eq_true h), withChildren_eq_self hchildren]

theorem putAlong_putAlong_inside (v u : Supply) (q p : Payload Node) (next : String)
    (rest : List String) (next' : String) (rest' : List String)
    (hchildren : n.children? = some children) :
    putAlong v q (putAlong u p (before ++ n :: after) n.name (next :: rest)).1 n.name
        (next' :: rest') =
      (before ++ n.withChildren (putAlong (v.skip 1) q
          (putAlong (u.skip 1) p children next rest).1 next' rest').1 :: after,
        (putAlong (v.skip 1) q (putAlong (u.skip 1) p children next rest).1 next' rest').2) := by
  rw [putAlong_inside after hbefore u p next rest hchildren]
  generalize (putAlong (u.skip 1) p children next rest).1 = changed
  have hsecond := putAlong_inside (n := n.withChildren changed) after hbefore v q next' rest'
    (children?_withChildren hchildren)
  rw [withChildren_withChildren] at hsecond
  exact hsecond

end Levels

/-- A path that has been made is found again. -/
theorem putAlong_append_chain (v u : Supply) (q p : Payload Node) (head : String)
    (tail : List String) (hnone : nodes.named? head = none) :
    putAlong v q (nodes ++ [chain u p head tail]) head tail =
      (nodes ++ [chain u (p.putOver q) head tail],
        if p.same q then .unchanged else .updated) := by
  induction tail generalizing nodes head u v with
  | nil => exact putAlong_named [] (named?_eq_none_iff.1 hnone) v q
  | cons next rest ih =>
    have hnil : named? [] next = none := rfl
    have hbelow := ih (v.skip 1) (u.skip 1) next hnil
    have hinside := putAlong_inside (n := chain u p head (next :: rest)) []
      (named?_eq_none_iff.1 hnone) v q next rest rfl
    rw [List.nil_append] at hbelow
    rw [hbelow] at hinside
    exact hinside

/-! ## Putting twice -/

/-- The second payload is left at the end of the path. -/
theorem twins_putAlong_putAlong (hE : ∀ i, E i i) (hids : ∀ i ∈ p.ids ++ q.ids, ∀ j, E i j)
    (hsupply : Supply.Twin E u w) (v : Supply) (nodes : Forest) (head : String)
    (tail : List String) :
    Twins E (putAlong v q (putAlong u p nodes head tail).1 head tail).1
      (putAlong w q nodes head tail).1 := by
  have hrefl := Twins.refl hE
  induction nodes, head, tail using induction_along generalizing u v w with
  | unnamed tail hnone =>
    rw [putAlong_of_unnamed u p tail hnone, putAlong_of_unnamed w q tail hnone,
      putAlong_append_chain v u q p _ tail hnone]
    exact List.rel_append (hrefl _)
      (.cons (chain_twin hsupply (Payload.putOver_twin_right hids) _ tail) .nil)
  | @ends before n after hbefore =>
    rw [putAlong_putAlong_named after hbefore, putAlong_named after hbefore]
    have hpayload := Payload.putOver_putOver_twin hids hE n.payload
    exact List.rel_append (hrefl _) (.cons (.intro (hE _) rfl hpayload) (hrefl after))
  | blocked next rest hnamed hleaf =>
    rw [putAlong_leaf u p next rest hnamed hleaf, putAlong_leaf v q next rest hnamed hleaf,
      putAlong_leaf w q next rest hnamed hleaf]
    exact hrefl _
  | @inside before n after children next rest hbefore hchildren ih =>
    rw [putAlong_putAlong_inside after hbefore v u q p next rest next rest hchildren,
      putAlong_inside after hbefore w q next rest hchildren]
    have hbelow := (Node.Twin.refl hE n).withChildren (ih (hsupply.skip 1) (v.skip 1))
    exact List.rel_append (hrefl _) (.cons hbelow (hrefl after))

/-- What has been put along a path is found there, unless a leaf blocks the path. -/
theorem putAlong_putAlong_self (hp : p.same p = true) (u v : Supply) (nodes : Forest)
    (head : String) (tail : List String) :
    (putAlong v p (putAlong u p nodes head tail).1 head tail).1 =
        (putAlong u p nodes head tail).1 ∧
      ((putAlong v p (putAlong u p nodes head tail).1 head tail).2 = .unchanged ∨
        (putAlong v p (putAlong u p nodes head tail).1 head tail).2 = .blocked) := by
  induction nodes, head, tail using induction_along generalizing u v with
  | unnamed tail hnone =>
    rw [putAlong_of_unnamed u p tail hnone, putAlong_append_chain v u p p _ tail hnone]
    simp [Payload.putOver_of_same hp, hp]
  | @ends before n after hbefore =>
    have hsame := Payload.same_putOver hp n.payload
    rw [putAlong_putAlong_named after hbefore, putAlong_named after hbefore]
    simp [Payload.putOver_of_same hsame, hsame]
  | blocked next rest hnamed hleaf =>
    rw [putAlong_leaf u p next rest hnamed hleaf, putAlong_leaf v p next rest hnamed hleaf]
    exact ⟨rfl, .inr rfl⟩
  | inside after next rest hbefore hchildren ih =>
    obtain ⟨hchanged, houtcome⟩ := ih (u.skip 1) (v.skip 1)
    rw [putAlong_putAlong_inside after hbefore v u p p next rest next rest hchildren,
      putAlong_inside after hbefore u p next rest hchildren, hchanged]
    exact ⟨rfl, houtcome⟩

/-! ## Putting at a path twice -/

/-- Identities of nodes in the same places of two trees: they are the same, or the two nodes were made
with the same number of two supplies, or the first came with a payload that was put in. -/
def Counterparts (u w : Supply) (brought : List String) (i j : String) : Prop :=
  i = j ∨ (∃ number, i = Supply.idOf (u.next + number) ∧ j = Supply.idOf (w.next + number)) ∨
    i ∈ brought

/--
Of two payloads put at one path the second is left: the tree is the one that the second alone makes,
in all names, kinds, values and places, and in the identities of all nodes but those that are new or
come with a payload. A payload without numbers that are none does nothing when it is put once more.
-/
theorem put_put (root : Forest) (path : Path) (p q : Payload Node) (u v w : Supply) :
    Twins (Counterparts u w (p.ids ++ q.ids)) ((root.put u path p).1.put v path q).1
        (root.put w path q).1 ∧
      (p.HasNumbers →
        ((root.put u path p).1.put v path p).1 = (root.put u path p).1 ∧
          (((root.put u path p).1.put v path p).2.1 = .unchanged ∨
            ((root.put u path p).1.put v path p).2.1 = .blocked)) := by
  constructor
  · exact twins_putAlong_putAlong (fun _ ↦ .inl rfl) (fun _ hi _ ↦ .inr (.inr hi))
      (fun number ↦ .inr (.inl ⟨number, rfl, rfl⟩)) v root path.head path.tail
  · intro hp
    exact putAlong_putAlong_self hp.same_self u v root path.head path.tail

/-- A text in a dictionary, whose name stands twice. -/
def crossed : Forest := [
  ⟨"i", "d", .branch .dictionary [⟨"j", "x", .leaf (.text "t")⟩]⟩,
  ⟨"k", "d", .leaf (.text "u")⟩]

/-- A list that comes with a node. -/
def listed : Payload Node := .branch .list [⟨"a", "0", .leaf (.number 1.5)⟩]

theorem put_put_list :
    listed.HasNumbers ∧
      ((crossed.put ⟨0⟩ ⟨"d", ["x"]⟩ listed).1.put ⟨2⟩ ⟨"d", ["x"]⟩ listed).1 =
        (crossed.put ⟨0⟩ ⟨"d", ["x"]⟩ listed).1 ∧
      (((crossed.put ⟨0⟩ ⟨"d", ["x"]⟩ listed).1.put ⟨2⟩ ⟨"d", ["x"]⟩ listed).2.1 = .unchanged ∨
        ((crossed.put ⟨0⟩ ⟨"d", ["x"]⟩ listed).1.put ⟨2⟩ ⟨"d", ["x"]⟩ listed).2.1 = .blocked) := by
  have hnumbers : listed.HasNumbers := by
    intro x hx
    have hvalue : Leaf.number x = .number 1.5 := List.mem_singleton.1 hx
    obtain rfl := Leaf.number.inj hvalue
    decide
  exact ⟨hnumbers, (put_put crossed ⟨"d", ["x"]⟩ listed listed ⟨0⟩ ⟨2⟩ ⟨0⟩).2 hnumbers⟩

end Forest

end KeyTree
