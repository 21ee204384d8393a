import KeyTree.Proofs.Tree.Overwriting

/-!
# Puts that do not meet

Two payloads are put at paths neither of which begins with the other. What is done for one of them is
no matter to the other, so each has the outcome that it has alone. The two orders make trees that
cannot be told apart, but for new siblings where the paths part: the first that is put comes first.
-/

namespace KeyTree

variable {E : String → String → Prop} {u v w z : Supply} {p q : Payload Node}

/-- The supplies of two puts in one order, `u` and then `v`, and in the other, `w` and then `z`. What
is made for the second path stands for itself, and containers on both paths are made by whichever put
comes first. -/
structure Supply.Interchange (E : String → String → Prop) (u v w z : Supply) : Prop where
  refl : ∀ i, E i i
  first : Supply.Twin E u z
  second : Supply.Twin E v w
  shared : Supply.Twin E u w

theorem Supply.Interchange.skip (h : Interchange E u v w z) (count : Nat) :
    Interchange E (u.skip count) (v.skip count) (w.skip count) (z.skip count) :=
  ⟨h.refl, h.first.skip count, h.second.skip count, h.shared.skip count⟩

namespace Forest

variable {nodes children : Forest} {head head' next next' : String}
  {tail tail' rest rest' : List String} {before after : List Node} {n m new new' : Node}

/-! ## One sibling -/

/-- Siblings with the first of a name changed, or with another one at the end if there is none. -/
def putSibling (name : String) (made : Node) (change : Node → Node) (nodes : Forest) : Forest :=
  match nodes.named? name with
  | none => nodes ++ [made]
  | some n => replaceNamed name (change n) nodes

section Siblings

variable {made made' : Node} {change change' : Node → Node}

theorem putSibling_of_unnamed (hnone : nodes.named? head = none) :
    putSibling head made change nodes = nodes ++ [made] := by
  rw [putSibling, hnone]

theorem putSibling_of_named (hn : nodes.named? head = some n) :
    putSibling head made change nodes = replaceNamed head (change n) nodes := by
  rw [putSibling, hn]

theorem Twins.putSibling {nodes' : Forest} {name : String} (h : Twins E nodes nodes')
    (hnamed : nodes'.named? name = nodes.named? name) (hmade : made.Twin E made')
    (hchange : ∀ n, (change n).Twin E (change' n)) :
    Twins E (Forest.putSibling name made change nodes)
      (Forest.putSibling name made' change' nodes') := by
  cases hn : nodes.named? name with
  | none =>
    rw [putSibling_of_unnamed hn, putSibling_of_unnamed (hnamed.trans hn)]
    exact List.rel_append h (.cons hmade .nil)
  | some n =>
    rw [putSibling_of_named hn, putSibling_of_named (hnamed.trans hn)]
    exact h.replaceNamed name (hchange n)

theorem replaceNamed_append_of_named (hn : nodes.named? head = some n) (new : Node)
    (more : List Node) :
    replaceNamed head new (nodes ++ more) = replaceNamed head new nodes ++ more := by
  obtain ⟨rfl, before, after, rfl, hbefore⟩ := eq_append_of_named? hn
  rw [replaceNamed_append new hbefore, List.append_assoc, List.cons_append,
    replaceNamed_append new hbefore, List.append_assoc, List.cons_append]

theorem replaceNamed_comm {new new' : Node} (hnew : new.name = head) (hnew' : new'.name = head')
    (hne : head ≠ head') (nodes : Forest) :
    replaceNamed head' new' (replaceNamed head new nodes) =
      replaceNamed head new (replaceNamed head' new' nodes) := by
  subst hnew hnew'
  induction nodes with
  | nil => rfl
  | cons n nodes ih =>
    by_cases hn : n.name = new.name
    · simp [replaceNamed, hn, hne]
    · by_cases hn' : n.name = new'.name
      · simp [replaceNamed, hn', Ne.symm hne]
      · simp [replaceNamed, hn, hn', ih]

variable (hne : head ≠ head') (hmade : made.name = head) (hchange : ∀ n, (change n).name = n.name)

include hne hmade hchange

/-- Other names stand for what they stood for. -/
theorem named?_putSibling_of_ne (nodes : Forest) :
    named? (putSibling head made change nodes) head' = nodes.named? head' := by
  cases hn : nodes.named? head with
  | none =>
    rw [putSibling_of_unnamed hn]
    exact named?_append_of_ne (hmade.trans_ne hne)
  | some n =>
    obtain ⟨rfl, before, after, rfl, hbefore⟩ := eq_append_of_named? hn
    rw [putSibling_of_named hn, replaceNamed_append _ hbefore]
    exact named?_insert_of_ne (hchange n) hne

/-- Two new siblings stand in the order in which they came. -/
theorem putSibling_putSibling_of_new (hnone : nodes.named? head = none)
    (hnone' : nodes.named? head' = none) :
    putSibling head' made' change' (putSibling head made change nodes) =
      nodes ++ [made, made'] := by
  have hother := named?_putSibling_of_ne hne hmade hchange nodes
  rw [putSibling_of_unnamed (hother.trans hnone'), putSibling_of_unnamed hnone, List.append_assoc]
  rfl

variable (hmade' : made'.name = head') (hchange' : ∀ n, (change' n).name = n.name)

include hmade' hchange'

/-- The order is no matter if one of the siblings was there. -/
theorem putSibling_comm (hsome : nodes.named? head ≠ none ∨ nodes.named? head' ≠ none) :
    putSibling head' made' change' (putSibling head made change nodes) =
      putSibling head made change (putSibling head' made' change' nodes) := by
  have hother := named?_putSibling_of_ne hne hmade hchange nodes
  have hother' := named?_putSibling_of_ne hne.symm hmade' hchange' nodes
  cases hn : nodes.named? head with
  | none =>
    cases hm : nodes.named? head' with
    | none => exact absurd hsome (by simp [hn, hm])
    | some m =>
      rw [putSibling_of_named (hother.trans hm), putSibling_of_unnamed (hother'.trans hn),
        putSibling_of_unnamed hn, putSibling_of_named hm, replaceNamed_append_of_named hm]
  | some n =>
    cases hm : nodes.named? head' with
    | none =>
      rw [putSibling_of_unnamed (hother.trans hm), putSibling_of_named (hother'.trans hn),
        putSibling_of_named hn, putSibling_of_unnamed hm, replaceNamed_append_of_named hn]
    | some m =>
      have hnew : (change n).name = head := (hchange n).trans (eq_append_of_named? hn).1
      have hnew' : (change' m).name = head' := (hchange' m).trans (eq_append_of_named? hm).1
      rw [putSibling_of_named (hother.trans hm), putSibling_of_named (hother'.trans hn),
        putSibling_of_named hn, putSibling_of_named hm, replaceNamed_comm hnew hnew' hne]

end Siblings

/-! ## What becomes of one sibling -/

/-- What putting along segments makes of the sibling of their first name. -/
def putInto (supply : Supply) (payload : Payload Node) : List String → Node → Node × Outcome
  | [], n => ({ n with payload := n.payload.putOver payload },
      if n.payload.same payload then .unchanged else .updated)
  | next :: rest, n => match n.children? with
    | none => (n, .blocked)
    | some children =>
      let put := putAlong (supply.skip 1) payload children next rest
      (n.withChildren put.1, put.2)

theorem putInto_leaf (supply : Supply) (payload : Payload Node) (next : String)
    (rest : List String) (hleaf : n.children? = none) :
    putInto supply payload (next :: rest) n = (n, .blocked) := by
  rw [putInto, hleaf]

theorem putInto_inside (supply : Supply) (payload : Payload Node) (next : String)
    (rest : List String) (hchildren : n.children? = some children) :
    putInto supply payload (next :: rest) n =
      (n.withChildren (putAlong (supply.skip 1) payload children next rest).1,
        (putAlong (supply.skip 1) payload children next rest).2) := by
  rw [putInto, hchildren]

theorem name_putInto (supply : Supply) (payload : Payload Node) (tail : List String) (n : Node) :
    (putInto supply payload tail n).1.name = n.name := by
  cases tail with
  | nil => rfl
  | cons next rest =>
    cases hchildren : n.children? with
    | none => rw [putInto_leaf supply payload next rest hchildren]
    | some children =>
      rw [putInto_inside supply payload next rest hchildren]
      rfl

theorem name_chain (supply : Supply) (payload : Payload Node) (head : String) (tail : List String) :
    (chain supply payload head tail).name = head := by
  cases tail <;> rfl

/-- Putting along segments changes the sibling of the first name, or makes one. -/
theorem putAlong_eq (supply : Supply) (payload : Payload Node) (nodes : Forest) (head : String)
    (tail : List String) :
    putAlong supply payload nodes head tail =
      (putSibling head (chain supply payload head tail)
          (fun n ↦ (putInto supply payload tail n).1) nodes,
        (nodes.named? head).elim .created fun n ↦ (putInto supply payload tail n).2) := by
  cases hn : nodes.named? head with
  | none =>
    rw [putAlong_of_unnamed supply payload tail hn, putSibling_of_unnamed hn]
    rfl
  | some n =>
    rw [putSibling_of_named hn]
    obtain ⟨rfl, before, after, rfl, hbefore⟩ := eq_append_of_named? hn
    rw [replaceNamed_append _ hbefore]
    cases tail with
    | nil => exact putAlong_named after hbefore supply payload
    | cons next rest =>
      cases hchildren : n.children? with
      | none =>
        rw [putAlong_leaf supply payload next rest hn hchildren, Option.elim_some,
          putInto_leaf supply payload next rest hchildren]
      | some children =>
        rw [putAlong_inside after hbefore supply payload next rest hchildren, Option.elim_some,
          putInto_inside supply payload next rest hchildren]

/-- A supply gives identities and nothing else. -/
theorem putAlong_twins (hE : ∀ i, E i i) (hsupply : Supply.Twin E u w) (p : Payload Node)
    (nodes : Forest) (head : String) (tail : List String) :
    Twins E (putAlong u p nodes head tail).1 (putAlong w p nodes head tail).1 ∧
      (putAlong u p nodes head tail).2 = (putAlong w p nodes head tail).2 := by
  have hrefl := Twins.refl hE
  induction nodes, head, tail using induction_along generalizing u w with
  | @unnamed nodes head tail hnone =>
    rw [putAlong_of_unnamed u p tail hnone, putAlong_of_unnamed w p tail hnone]
    have hchain := chain_twin hsupply (Payload.Twin.refl hE p) head tail
    exact ⟨List.rel_append (hrefl nodes) (.cons hchain .nil), rfl⟩
  | ends after hbefore =>
    rw [putAlong_named after hbefore, putAlong_named after hbefore]
    exact ⟨hrefl _, rfl⟩
  | blocked next rest hnamed hleaf =>
    rw [putAlong_leaf u p next rest hnamed hleaf, putAlong_leaf w p next rest hnamed hleaf]
    exact ⟨hrefl _, rfl⟩
  | @inside before n after children next rest hbefore hchildren ih =>
    obtain ⟨htwins, houtcome⟩ := ih (hsupply.skip 1)
    rw [putAlong_inside after hbefore u p next rest hchildren,
      putAlong_inside after hbefore w p next rest hchildren]
    have hbelow := (Node.Twin.refl hE n).withChildren htwins
    exact ⟨List.rel_append (hrefl before) (.cons hbelow (hrefl after)), houtcome⟩

theorem putInto_twin (hE : ∀ i, E i i) (hsupply : Supply.Twin E u w) (p : Payload Node)
    (tail : List String) (n : Node) :
    (putInto u p tail n).1.Twin E (putInto w p tail n).1 ∧
      (putInto u p tail n).2 = (putInto w p tail n).2 := by
  cases tail with
  | nil => exact ⟨.refl hE _, rfl⟩
  | cons next rest =>
    cases hchildren : n.children? with
    | none =>
      rw [putInto_leaf u p next rest hchildren, putInto_leaf w p next rest hchildren]
      exact ⟨.refl hE n, rfl⟩
    | some children =>
      obtain ⟨htwins, houtcome⟩ := putAlong_twins hE (hsupply.skip 1) p children next rest
      rw [putInto_inside u p next rest hchildren, putInto_inside w p next rest hchildren]
      exact ⟨(Node.Twin.refl hE n).withChildren htwins, houtcome⟩

/-! ## Two puts -/

/--
Two trees that agree, but for the order of two siblings which were not there before. They come last on
the level on which two paths part, and each has the name that its path has there.
-/
inductive Swapped (E : String → String → Prop) :
    Forest → String → List String → String → List String → Forest → Forest → Prop
  | here {nodes : Forest} {head head' : String} (tail tail' : List String) {n m n' m' : Node}
      (hne : head ≠ head') (hhead : nodes.named? head = none) (hhead' : nodes.named? head' = none)
      (hn : n.name = head) (hm : m.name = head') (hnn' : n.Twin E n') (hmm' : m.Twin E m') :
      Swapped E nodes head tail head' tail' (nodes ++ [n, m]) (nodes ++ [m', n'])
  /-- The paths part among the children of a container that was there. -/
  | inside {before after : List Node} {n : Node} {children first second : Forest}
      {next next' : String} {rest rest' : List String} (hbefore : n.name ∉ names before)
      (hchildren : n.children? = some children)
      (h : Swapped E children next rest next' rest' first second) :
      Swapped E (before ++ n :: after) n.name (next :: rest) n.name (next' :: rest')
        (before ++ n.withChildren first :: after) (before ++ n.withChildren second :: after)
  /-- The paths part in a new dictionary. -/
  | opened {nodes first second : Forest} {i j head next next' : String} {rest rest' : List String}
      (hnone : nodes.named? head = none) (hid : E i j)
      (h : Swapped E [] next rest next' rest' first second) :
      Swapped E nodes head (next :: rest) head (next' :: rest')
        (nodes ++ [⟨i, head, .branch .dictionary first⟩])
        (nodes ++ [⟨j, head, .branch .dictionary second⟩])

/-- The same outcomes in both orders, and trees that agree, but for the order of new siblings if both
puts make some. -/
structure Commutes (E : String → String → Prop) (u v w z : Supply) (p q : Payload Node)
    (nodes : Forest) (head : String) (tail : List String) (head' : String) (tail' : List String) :
    Prop where
  second : (putAlong v q (putAlong u p nodes head tail).1 head' tail').2 =
    (putAlong w q nodes head' tail').2
  first : (putAlong z p (putAlong w q nodes head' tail').1 head tail).2 =
    (putAlong u p nodes head tail).2
  trees :
    Twins E (putAlong v q (putAlong u p nodes head tail).1 head' tail').1
        (putAlong z p (putAlong w q nodes head' tail').1 head tail).1 ∨
      ((putAlong u p nodes head tail).2 = .created ∧ (putAlong w q nodes head' tail').2 = .created ∧
        Swapped E nodes head tail head' tail'
          (putAlong v q (putAlong u p nodes head tail).1 head' tail').1
          (putAlong z p (putAlong w q nodes head' tail').1 head tail).1)

/-- The second of two paths goes on below a dictionary that is made for the first. -/
theorem putAlong_putAlong_of_unnamed (hnone : nodes.named? head = none) :
    putAlong v q (putAlong u p nodes head (next :: rest)).1 head (next' :: rest') =
      (nodes ++ [⟨u.id, head, .branch .dictionary
        (putAlong (v.skip 1) q (putAlong (u.skip 1) p [] next rest).1 next' rest').1⟩],
      (putAlong (v.skip 1) q (putAlong (u.skip 1) p [] next rest).1 next' rest').2) := by
  have hnil : named? [] next = none := rfl
  rw [putAlong_of_unnamed u p (next :: rest) hnone, putAlong_of_unnamed (u.skip 1) p rest hnil]
  exact putAlong_inside (n := chain u p head (next :: rest)) [] (named?_eq_none_iff.1 hnone) v q
    next' rest' rfl

section Levels

variable (h : Supply.Interchange E u v w z)

include h

/-- Two siblings of different names are put one after the other. -/
theorem commutes_of_ne (p q : Payload Node) (nodes : Forest) (tail tail' : List String)
    (hne : head ≠ head') : Commutes E u v w z p q nodes head tail head' tail' := by
  have hname (s : Supply) := name_chain s p head tail
  have hname' (s : Supply) := name_chain s q head' tail'
  have hkept (s : Supply) := name_putInto s p tail
  have hkept' (s : Supply) := name_putInto s q tail'
  have hother (s : Supply) := named?_putSibling_of_ne hne (hname s) (hkept s) nodes
  have hother' (s : Supply) :=
    named?_putSibling_of_ne hne.symm (hname' s) (hkept' s) nodes
  have hmade := chain_twin h.first (Payload.Twin.refl h.refl p) head tail
  have hmade' := chain_twin h.second (Payload.Twin.refl h.refl q) head' tail'
  have hchange (n : Node) := putInto_twin h.refl h.first p tail n
  have hchange' (n : Node) := putInto_twin h.refl h.second q tail' n
  constructor
  · rw [putAlong_eq v, putAlong_eq u, putAlong_eq w]
    dsimp only
    rw [hother u]
    simp only [(hchange' _).2]
  · rw [putAlong_eq z, putAlong_eq u, putAlong_eq w]
    dsimp only
    rw [hother' w]
    simp only [(hchange _).2]
  · rw [putAlong_eq v, putAlong_eq u, putAlong_eq w, putAlong_eq z]
    dsimp only
    by_cases hnew : nodes.named? head = none ∧ nodes.named? head' = none
    · obtain ⟨hnone, hnone'⟩ := hnew
      rw [putSibling_putSibling_of_new hne (hname u) (hkept u) hnone hnone',
        putSibling_putSibling_of_new hne.symm (hname' w) (hkept' w) hnone' hnone, hnone, hnone']
      exact .inr ⟨rfl, rfl,
        .here tail tail' hne hnone hnone' (hname u) (hname' v) hmade hmade'⟩
    · have hsome : nodes.named? head ≠ none ∨ nodes.named? head' ≠ none := not_and_or.1 hnew
      rw [← putSibling_comm hne (hname z) (hkept z) (hname' w) (hkept' w) hsome]
      have hinner := (putAlong_twins h.refl h.first p nodes head tail).1
      rw [putAlong_eq u, putAlong_eq z] at hinner
      refine .inl (hinner.putSibling ?_ hmade' fun n ↦ (hchange' n).1)
      rw [hother u, hother z]

/-- Both paths go on below a name that nothing has. The first put makes a dictionary of this name. -/
theorem commutes_of_unnamed (hnone : nodes.named? head = none)
    (hbelow : Commutes E (u.skip 1) (v.skip 1) (w.skip 1) (z.skip 1) p q [] next rest next' rest') :
    Commutes E u v w z p q nodes head (next :: rest) head (next' :: rest') := by
  have hcreated := congrArg Prod.snd (putAlong_of_unnamed u p (next :: rest) hnone)
  have hcreated' := congrArg Prod.snd (putAlong_of_unnamed w q (next' :: rest') hnone)
  have hnil : named? [] next = none := rfl
  have hnil' : named? [] next' = none := rfl
  have hbelowcreated := congrArg Prod.snd (putAlong_of_unnamed (u.skip 1) p rest hnil)
  have hbelowcreated' := congrArg Prod.snd (putAlong_of_unnamed (w.skip 1) q rest' hnil')
  constructor
  · rw [putAlong_putAlong_of_unnamed hnone, hcreated', hbelow.second, hbelowcreated']
  · rw [putAlong_putAlong_of_unnamed hnone, hcreated, hbelow.first, hbelowcreated]
  · rw [putAlong_putAlong_of_unnamed hnone, putAlong_putAlong_of_unnamed hnone]
    rcases hbelow.trees with htwins | ⟨-, -, hswapped⟩
    · have hchild : Node.Twin E ⟨u.id, head, .branch .dictionary _⟩
          ⟨w.id, head, .branch .dictionary _⟩ := .intro h.shared.id rfl (.branch _ htwins)
      exact .inl (List.rel_append (Twins.refl h.refl nodes) (.cons hchild .nil))
    · exact .inr ⟨hcreated, hcreated', .opened hnone h.shared.id hswapped⟩

/-- Both paths go on below one sibling. A leaf blocks both, and a container is rebuilt twice. -/
theorem commutes_of_named (hn : nodes.named? head = some n)
    (hbelow : ∀ children, n.children? = some children →
      Commutes E (u.skip 1) (v.skip 1) (w.skip 1) (z.skip 1) p q children next rest next' rest') :
    Commutes E u v w z p q nodes head (next :: rest) head (next' :: rest') := by
  have hrefl := Twins.refl h.refl
  cases hchildren : n.children? with
  | none =>
    have hleaf (s : Supply) (o : Payload Node) (name : String) (more : List String) :=
      putAlong_leaf s o name more hn hchildren
    constructor
    · simp only [hleaf]
    · simp only [hleaf]
    · simp only [hleaf]
      exact .inl (hrefl nodes)
  | some children =>
    have hcommutes := hbelow children hchildren
    obtain ⟨rfl, before, after, rfl, hbefore⟩ := eq_append_of_named? hn
    constructor
    · rw [putAlong_putAlong_inside after hbefore v u q p next rest next' rest' hchildren,
        putAlong_inside after hbefore w q next' rest' hchildren]
      exact hcommutes.second
    · rw [putAlong_putAlong_inside after hbefore z w p q next' rest' next rest hchildren,
        putAlong_inside after hbefore u p next rest hchildren]
      exact hcommutes.first
    · rw [putAlong_putAlong_inside after hbefore v u q p next rest next' rest' hchildren,
        putAlong_putAlong_inside after hbefore z w p q next' rest' next rest hchildren,
        putAlong_inside after hbefore u p next rest hchildren,
        putAlong_inside after hbefore w q next' rest' hchildren]
      rcases hcommutes.trees with htwins | ⟨hcreated, hcreated', hswapped⟩
      · have hchild := (Node.Twin.refl h.refl n).withChildren htwins
        exact .inl (List.rel_append (hrefl before) (.cons hchild (hrefl after)))
      · exact .inr ⟨hcreated, hcreated', .inside hbefore hchildren hswapped⟩

/-- Two payloads are put along segments that part somewhere. -/
theorem commutes_putAlong (nodes : Forest) (hbelow : ¬ head :: tail <+: head' :: tail')
    (habove : ¬ head' :: tail' <+: head :: tail) :
    Commutes E u v w z p q nodes head tail head' tail' := by
  induction tail generalizing nodes head head' tail' u v w z with
  | nil =>
    apply commutes_of_ne h
    rintro rfl
    exact hbelow (List.cons_prefix_cons.2 ⟨rfl, List.nil_prefix⟩)
  | cons next rest ih =>
    by_cases hne : head = head'
    · subst hne
      rw [List.cons_prefix_cons, and_iff_right rfl] at hbelow habove
      cases tail' with
      | nil => exact absurd List.nil_prefix habove
      | cons next' rest' =>
        cases hn : nodes.named? head with
        | none => exact commutes_of_unnamed h hn (ih (h.skip 1) [] hbelow habove)
        | some n =>
          exact commutes_of_named h hn fun children _ ↦ ih (h.skip 1) children hbelow habove
    · exact commutes_of_ne h p q nodes (next :: rest) tail' hne

end Levels

/-! ## Two puts at paths -/

/-- Identities of nodes in the same places of two trees: they are the same, or each was given out by
one of the two supplies that made its tree, under the same number. -/
def Renewed (u v w z : Supply) (i j : String) : Prop :=
  i = j ∨ ∃ number, (i = Supply.idOf (u.next + number) ∨ i = Supply.idOf (v.next + number)) ∧
    (j = Supply.idOf (w.next + number) ∨ j = Supply.idOf (z.next + number))

theorem interchange_renewed (u v w z : Supply) :
    Supply.Interchange (Renewed u v w z) u v w z where
  refl _ := .inl rfl
  first number := .inr ⟨number, .inl rfl, .inr rfl⟩
  second number := .inr ⟨number, .inr rfl, .inl rfl⟩
  shared number := .inr ⟨number, .inl rfl, .inl rfl⟩

/-- Two puts that can change places: the outcomes are the same in both orders, and so are the trees,
but for the identities of new nodes, and for the order of two new siblings if both puts make some. -/
structure PutsCommute (root : Forest) (path path' : Path) (p q : Payload Node)
    (u v w z : Supply) : Prop where
  second : ((root.put u path p).1.put v path' q).2.1 = (root.put w path' q).2.1
  first : ((root.put w path' q).1.put z path p).2.1 = (root.put u path p).2.1
  trees :
    Twins (Renewed u v w z) ((root.put u path p).1.put v path' q).1
        ((root.put w path' q).1.put z path p).1 ∨
      ((root.put u path p).2.1 = .created ∧ (root.put w path' q).2.1 = .created ∧
        Swapped (Renewed u v w z) root path.head path.tail path'.head path'.tail
          ((root.put u path p).1.put v path' q).1 ((root.put w path' q).1.put z path p).1)

/-- Payloads can be put in any order at two paths neither of which begins with the other. -/
theorem putsCommute_of_apart (root : Forest) {path path' : Path} (p q : Payload Node)
    (u v w z : Supply) (hbelow : ¬ path.segments <+: path'.segments)
    (habove : ¬ path'.segments <+: path.segments) :
    PutsCommute root path path' p q u v w z := by
  have hcommutes := commutes_putAlong (p := p) (q := q) (interchange_renewed u v w z) root hbelow
    habove
  exact ⟨hcommutes.second, hcommutes.first, hcommutes.trees⟩

/-- Two texts are put into a dictionary that is made for whichever comes first. -/
theorem putsCommute_opened :
    (¬ ["a", "x"] <+: ["a", "y"]) ∧ (¬ ["a", "y"] <+: ["a", "x"]) ∧
      PutsCommute [] ⟨"a", ["x"]⟩ ⟨"a", ["y"]⟩ (.leaf (.text "t")) (.leaf (.text "u")) ⟨0⟩ ⟨2⟩ ⟨0⟩
        ⟨2⟩ :=
  ⟨by decide, by decide,
    putsCommute_of_apart [] (.leaf (.text "t")) (.leaf (.text "u")) ⟨0⟩ ⟨2⟩ ⟨0⟩ ⟨2⟩ (by decide)
      (by decide)⟩

end Forest

end KeyTree
