import KeyTree.Proofs.Tree.Names
import KeyTree.Tree.Lookup
import KeyTree.Tree.Put
import KeyTree.Value.Coercion

/-!
# What is put at a path

Putting goes by names alone, while a lookup goes on to positions. They meet on what has been put,
because there every segment of the path names a sibling. On each level of the path one node is put
among the siblings, and a path that parts from it leads by names to the node that it led to.
-/

namespace KeyTree

/-! ## Payloads -/

/-- Payloads that are equal up to identities, or the same number that is none. -/
def Payload.Agrees (a b : Payload Node) : Prop := a = b ∨ a.same b = true

theorem Leaf.kind_eq_of_same {v w : Leaf} (h : v.same w = true) : v.kind = w.kind := by
  cases v <;> cases w <;> simp_all [same, kind]

theorem Payload.Agrees.kind_eq {a b : Payload Node} (h : a.Agrees b) : a.kind = b.kind := by
  rcases h with rfl | h
  · rfl
  · cases a with
    | leaf v =>
      cases b with
      | leaf w => exact Leaf.kind_eq_of_same h
      | branch => cases h
    | branch s children =>
      cases b with
      | leaf => cases h
      | branch t _ =>
        have hshape : s = t := beq_iff_eq.1 (Bool.and_eq_true _ _ ▸ h).1
        rw [kind, kind, hshape]

theorem Coercion.kind_branch (shape : Shape) (children : Forest) :
    (Coercion.branch shape children).kind = shape.kind := by
  cases shape <;> rfl

/-- Coercion comes to a payload of the wanted kind. -/
theorem Kind.kind_of_coerce {kind : Kind} {raw : Raw} {payload : Payload Node}
    (h : kind.coerce raw = .ok payload) : payload.kind = kind := by
  unfold Kind.coerce at h
  cases kind with
  | text | expression | boolean => rw [← Except.ok.inj h]; rfl
  | number =>
    dsimp only at h
    split at h
    · rw [← Except.ok.inj h]; rfl
    · cases h
  | dictionary | list =>
    dsimp only at h
    split at h
    · rw [← Except.ok.inj h, Coercion.kind_branch]; rfl
    · cases h

theorem ofName?_of_coerce {kindName : String} {raw : Raw} {payload : Payload Node}
    (h : coerce kindName raw = .ok payload) : Kind.ofName? kindName = some payload.kind := by
  unfold coerce at h
  split at h
  case h_1 kind hkind => rw [hkind, Kind.kind_of_coerce h]
  case h_2 => cases h

namespace Forest

variable {payload : Payload Node} {nodes new : Forest} {head : String} {tail : List String}
  {outcome : Outcome}

/-! ## Ways by names -/

/-- The children of the first sibling of a name. -/
def childrenNamed? (nodes : Forest) (name : String) : Option Forest :=
  (nodes.named? name).bind Node.children?

/-- The siblings that segments lead to by names. -/
def siblingsAlong? (nodes : Forest) : List String → Option Forest
  | [] => some nodes
  | name :: rest => (nodes.childrenNamed? name).bind fun children ↦ siblingsAlong? children rest

/-- The node that segments lead to by names. -/
def namedAlong? (nodes : Forest) (head : String) : List String → Option Node
  | [] => nodes.named? head
  | next :: rest =>
    (nodes.childrenNamed? head).bind fun children ↦ namedAlong? children next rest

/-- The node that a path leads to by names. -/
def namedAt? (root : Forest) (path : Path) : Option Node := root.namedAlong? path.head path.tail

theorem named?_append (n : Node) (hnone : nodes.named? n.name = none) :
    named? (nodes ++ [n]) n.name = some n := by
  unfold named? at hnone ⊢
  simp [List.find?_append, hnone]

theorem named?_insert_of_ne {before after : List Node} {n m : Node} {name : String}
    (hm : m.name = n.name) (hne : n.name ≠ name) :
    named? (before ++ m :: after) name = named? (before ++ n :: after) name := by
  simp [named?, List.find?_append, hm, hne]

theorem named?_append_of_ne {n : Node} {name : String} (hne : n.name ≠ name) :
    named? (nodes ++ [n]) name = named? nodes name := by
  simp [named?, List.find?_append, hne]

/-- A lookup takes the way that names show, if they show one. -/
theorem follow?_of_namedAlong? {n : Node} (h : nodes.namedAlong? head tail = some n) :
    nodes.follow? head tail = .ok (some n) := by
  induction tail generalizing nodes head with
  | nil =>
    have hnamed : nodes.named? head = some n := h
    rw [follow?, child?, hnamed]
  | cons next rest ih =>
    rw [namedAlong?, Option.bind_eq_some_iff] at h
    obtain ⟨children, hchildren, hbelow⟩ := h
    obtain ⟨m, hnamed, hm⟩ := Option.bind_eq_some_iff.1 hchildren
    rw [follow?, child?, hnamed]
    dsimp only [bind, Except.bind, Option.bind_some]
    rw [hm]
    exact ih hbelow

/-! ## What putting does -/

/-- What putting a payload along segments makes of siblings, and with what outcome. -/
inductive Puts (payload : Payload Node) :
    Forest → String → List String → Forest → Outcome → Prop
  | created {nodes : Forest} (new : Node) (hnone : nodes.named? new.name = none)
      (hpayload : new.payload = payload) : Puts payload nodes new.name [] (nodes ++ [new]) .created
  /-- The rest of the path is put into a new dictionary. -/
  | opened {nodes children : Forest} {next : String} {rest : List String} (new : Node)
      (hnone : nodes.named? new.name = none) (hpayload : new.payload = .branch .dictionary children)
      (h : Puts payload [] next rest children .created) :
      Puts payload nodes new.name (next :: rest) (nodes ++ [new]) .created
  | unchanged {nodes : Forest} {head : String} {n : Node} (hnamed : nodes.named? head = some n)
      (hsame : n.payload.same payload = true) : Puts payload nodes head [] nodes .unchanged
  | updated {before : List Node} (n : Node) (after : List Node) (hbefore : n.name ∉ names before) :
      Puts payload (before ++ n :: after) n.name []
        (before ++ { n with payload := payload } :: after) .updated
  | blocked {nodes : Forest} {head next : String} {rest : List String} {n : Node}
      (hnamed : nodes.named? head = some n) (hleaf : n.children? = none) :
      Puts payload nodes head (next :: rest) nodes .blocked
  | inside {before : List Node} (n : Node) (after : List Node) {children changed : Forest}
      {next : String} {rest : List String} {outcome : Outcome} (hbefore : n.name ∉ names before)
      (hchildren : n.children? = some children)
      (h : Puts payload children next rest changed outcome) :
      Puts payload (before ++ n :: after) n.name (next :: rest)
        (before ++ n.withChildren changed :: after) outcome

theorem children?_withChildren {n : Node} {children changed : Forest}
    (h : n.children? = some children) : (n.withChildren changed).children? = some changed := by
  obtain ⟨id, name, payload⟩ := n
  cases payload with
  | leaf value => cases h
  | branch shape _ => rfl

theorem withChildren_eq_self {n : Node} {children : Forest} (h : n.children? = some children) :
    n.withChildren children = n := by
  obtain ⟨id, name, payload⟩ := n
  cases payload with
  | leaf value => cases h
  | branch shape _ =>
    obtain rfl := Option.some.inj h
    rfl

theorem withChildren_withChildren (n : Node) (children changed : Forest) :
    (n.withChildren children).withChildren changed = n.withChildren changed := by
  obtain ⟨id, name, payload⟩ := n
  cases payload <;> rfl

theorem childrenNamed?_append {n : Node} {shape : Shape} {children : Forest}
    (hnone : nodes.named? n.name = none) (hpayload : n.payload = .branch shape children) :
    childrenNamed? (nodes ++ [n]) n.name = some children := by
  rw [childrenNamed?, named?_append n hnone, Option.bind_some, Node.children?, hpayload]
  rfl

theorem childrenNamed?_insert {before : List Node} {n : Node} {children : Forest}
    (after : List Node) (hbefore : n.name ∉ names before) (hchildren : n.children? = some children) :
    childrenNamed? (before ++ n :: after) n.name = some children := by
  rw [childrenNamed?, named?_insert n after hbefore, Option.bind_some, hchildren]

theorem childrenNamed?_withChildren {before : List Node} {n : Node} {children changed : Forest}
    (after : List Node) (hbefore : n.name ∉ names before) (hchildren : n.children? = some children) :
    childrenNamed? (before ++ n.withChildren changed :: after) n.name = some changed :=
  childrenNamed?_insert after hbefore (children?_withChildren hchildren)

/-- Without a change the siblings stay as they are. -/
theorem Puts.eq_self (h : Puts payload nodes head tail new outcome)
    (houtcome : outcome.isChange = false) : new = nodes := by
  induction h with
  | created | opened | updated => cases houtcome
  | unchanged | blocked => rfl
  | inside n after hbefore hchildren h ih => rw [ih houtcome, withChildren_eq_self hchildren]

/-- A change makes siblings, and leaves at least one. -/
theorem Puts.ne_nil (h : Puts payload nodes head tail new outcome)
    (hchange : outcome.isChange = true) : new ≠ [] := by
  cases h with
  | created | opened | updated | inside => simp
  | unchanged | blocked => cases hchange

theorem puts_chain (supply : Supply) (payload : Payload Node) (head : String)
    (tail : List String) :
    Puts payload [] head tail [chain supply payload head tail] .created := by
  induction tail generalizing supply head with
  | nil => exact .created (chain supply payload head []) rfl rfl
  | cons next rest ih =>
    exact .opened (chain supply payload head (next :: rest)) rfl rfl (ih (supply.skip 1) next)

theorem puts_putAlong (supply : Supply) (payload : Payload Node) (nodes : Forest) (head : String)
    (tail : List String) :
    Puts payload nodes head tail (putAlong supply payload nodes head tail).1
      (putAlong supply payload nodes head tail).2 := by
  induction tail generalizing supply nodes head with
  | nil =>
    unfold putAlong
    cases hnamed : nodes.named? head with
    | none => exact .created (chain supply payload head []) hnamed rfl
    | some n =>
      dsimp only
      split
      case isTrue hsame => exact .unchanged hnamed hsame
      case isFalse =>
        obtain ⟨rfl, before, after, rfl, hbefore⟩ := eq_append_of_named? hnamed
        rw [replaceNamed_append _ hbefore]
        exact .updated n after hbefore
  | cons next rest ih =>
    unfold putAlong
    cases hnamed : nodes.named? head with
    | none =>
      exact .opened (chain supply payload head (next :: rest)) hnamed rfl
        (puts_chain (supply.skip 1) payload next rest)
    | some n =>
      cases hchildren : n.children? with
      | none =>
        simp only [hchildren]
        exact .blocked hnamed hchildren
      | some children =>
        have hputs := ih (supply.skip 1) children next
        obtain ⟨rfl, before, after, rfl, hbefore⟩ := eq_append_of_named? hnamed
        simp only [hchildren]
        split
        case isTrue =>
          rw [replaceNamed_append _ hbefore]
          exact .inside n after hbefore hchildren hputs
        case isFalse hchange =>
          have hinside := Puts.inside n after hbefore hchildren hputs
          rw [Bool.not_eq_true] at hchange
          rwa [hinside.eq_self hchange] at hinside

/-! ## New paths -/

theorem putAlong_of_unnamed (supply : Supply) (payload : Payload Node) (tail : List String)
    (hnone : nodes.named? head = none) :
    putAlong supply payload nodes head tail =
      (nodes ++ [chain supply payload head tail], .created) := by
  cases tail <;> rw [putAlong, hnone]

theorem height_le_iff {nodes : List Node} {height : Nat} :
    Forest.height nodes ≤ height ↔ ∀ n ∈ nodes, n.height ≤ height := by
  induction nodes with
  | nil => exact iff_of_true (Nat.zero_le height) fun n hn ↦ by cases hn
  | cons n nodes ih => rw [Forest.height, Nat.max_le, ih, List.forall_mem_cons]

theorem height_append (nodes others : Forest) :
    height (nodes ++ others) = max (height nodes) (height others) := by
  induction nodes with
  | nil => exact (Nat.zero_max _).symm
  | cons n ns ih => rw [List.cons_append, height, height, ih, Nat.max_assoc]

theorem height_singleton (n : Node) : height [n] = n.height := Nat.max_zero _

/-- A chain of nodes is as high as its path is long, at least. -/
theorem length_lt_height_chain (supply : Supply) (payload : Payload Node) (head : String)
    (tail : List String) : tail.length < (chain supply payload head tail).height := by
  induction tail generalizing supply head with
  | nil => cases payload <;> simp [chain, Node.height]
  | cons next rest ih =>
    rw [chain, Node.height, height_singleton, List.length_cons]
    exact Nat.succ_lt_succ (ih (supply.skip 1) next)

theorem height_chain_leaf (supply : Supply) (value : Leaf) (head : String) (tail : List String) :
    (chain supply (.leaf value) head tail).height = tail.length + 1 := by
  induction tail generalizing supply head with
  | nil => rfl
  | cons next rest ih =>
    rw [chain, Node.height, height_singleton, ih (supply.skip 1) next, List.length_cons]

/-! ## The calls that putting takes -/

theorem putCalls_le (nodes : Forest) (head : String) (tail : List String) :
    nodes.putCalls head tail ≤ tail.length + 1 := by
  induction tail generalizing nodes head with
  | nil => exact le_refl 1
  | cons next rest ih =>
    rw [putCalls, List.length_cons]
    split
    case h_1 => exact le_refl _
    case h_2 =>
      split
      case h_1 => exact Nat.le_add_left 1 _
      case h_2 children hchildren => exact Nat.succ_le_succ (ih children next)

theorem putCalls_of_unnamed {nodes : Forest} {head : String} (h : nodes.named? head = none)
    (tail : List String) : nodes.putCalls head tail = tail.length + 1 := by
  cases tail with
  | nil => rfl
  | cons next rest =>
    rw [putCalls, h]
    rfl

theorem put_of_boundedPut {supply : Supply} {root : Forest} {path : Path} {payload : Payload Node}
    {result : Forest × Outcome × Supply}
    (h : root.boundedPut supply path payload = .ok result) :
    root.put supply path payload = result := by
  unfold boundedPut at h
  split at h
  case isTrue => exact Except.ok.inj h
  case isFalse => cases h

/-- A path with no more segments than calls fit on the stack is never too long. -/
theorem boundedPut_of_le {supply : Supply} {root : Forest} {path : Path} {payload : Payload Node}
    (h : path.tail.length < callLimit) :
    root.boundedPut supply path payload = .ok (root.put supply path payload) :=
  if_pos ((putCalls_le root path.head path.tail).trans h)

/-! ## Reading what was put -/

/-- Unless a leaf blocks it, the path leads by names to what was put there. -/
theorem Puts.exists_named (h : Puts payload nodes head tail new outcome)
    (hblocked : outcome ≠ .blocked) :
    ∃ n, new.namedAlong? head tail = some n ∧ n.payload.Agrees payload ∧
      (outcome ≠ .created → ∃ m, nodes.namedAlong? head tail = some m ∧ n.id = m.id) := by
  induction h with
  | created n hnone hpayload =>
    exact ⟨n, named?_append n hnone, .inl hpayload, fun h ↦ absurd rfl h⟩
  | opened n hnone hpayload h ih =>
    obtain ⟨m, hm, hagrees, -⟩ := ih hblocked
    refine ⟨m, ?_, hagrees, fun h ↦ absurd rfl h⟩
    rw [namedAlong?, childrenNamed?_append hnone hpayload]
    exact hm
  | @unchanged nodes head n hnamed hsame =>
    exact ⟨n, hnamed, .inr hsame, fun _ ↦ ⟨n, hnamed, rfl⟩⟩
  | updated n after hbefore =>
    exact ⟨_, named?_insert { n with payload := payload } after hbefore, .inl rfl,
      fun _ ↦ ⟨n, named?_insert n after hbefore, rfl⟩⟩
  | blocked => exact absurd rfl hblocked
  | inside n after hbefore hchildren h ih =>
    rw [namedAlong?, namedAlong?, childrenNamed?_insert after hbefore hchildren,
      childrenNamed?_withChildren after hbefore hchildren]
    exact ih hblocked

/-- What has been put at a path is found there, under the identity of the node that it replaced. -/
theorem lookup?_put {root new : Forest} {supply rest : Supply} {text kindName : String} {raw : Raw}
    {path : Path} {payload : Payload Node} {outcome : Outcome}
    (hpath : Path.parse text = .ok path) (hraw : coerce kindName raw = .ok payload)
    (hput : root.put supply path payload = (new, outcome, rest)) (hblocked : outcome ≠ .blocked) :
    ∃ n, new.lookup? text = .ok (some n) ∧ n.payload.Agrees payload ∧
      Kind.ofName? kindName = some n.kind ∧
      (outcome = .updated ∨ outcome = .unchanged →
        ∃ m, root.lookup? text = .ok (some m) ∧ n.id = m.id) := by
  have hputs := puts_putAlong supply payload root path.head path.tail
  obtain ⟨rfl, rfl, -⟩ : _ = new ∧ _ = outcome ∧ _ = rest := by simpa [put] using hput
  obtain ⟨n, hnew, hagrees, hold⟩ := hputs.exists_named hblocked
  refine ⟨n, ?_, hagrees, ?_, ?_⟩
  · rw [lookup?, hpath]
    exact follow?_of_namedAlong? hnew
  · rw [ofName?_of_coerce hraw, Node.kind, hagrees.kind_eq]
  · intro houtcome
    obtain ⟨m, hm, hid⟩ := hold (by rintro heq; simp [heq] at houtcome)
    refine ⟨m, ?_, hid⟩
    rw [lookup?, hpath]
    exact follow?_of_namedAlong? hm

/-- A node of a list is found under the name that it was put at, though it is the position of
another node. -/
theorem lookup?_put_in_list :
    ∃ n, lookup? [⟨"i", "l", .branch .list
        [⟨"a", "1", .leaf (.text "u")⟩, ⟨"b", "0", .leaf (.text "w")⟩]⟩] "l.0" = .ok (some n) ∧
      n.payload.Agrees (.leaf (.text "w")) ∧ Kind.ofName? "text" = some n.kind ∧
      (Outcome.updated = .updated ∨ Outcome.updated = .unchanged →
        ∃ m, lookup? [⟨"i", "l", .branch .list
          [⟨"a", "1", .leaf (.text "u")⟩, ⟨"b", "0", .leaf (.text "v")⟩]⟩] "l.0" = .ok (some m) ∧
          n.id = m.id) := by
  have hpath : Path.parse "l.0" = .ok ⟨"l", ["0"]⟩ := rfl
  have hraw : coerce "text" (.text "w") = .ok (.leaf (.text "w")) := rfl
  have hput : put ⟨0⟩ [⟨"i", "l", .branch .list
        [⟨"a", "1", .leaf (.text "u")⟩, ⟨"b", "0", .leaf (.text "v")⟩]⟩] ⟨"l", ["0"]⟩
      (.leaf (.text "w")) = ([⟨"i", "l", .branch .list
        [⟨"a", "1", .leaf (.text "u")⟩, ⟨"b", "0", .leaf (.text "w")⟩]⟩], .updated, ⟨2⟩) := rfl
  exact lookup?_put hpath hraw hput (by decide)

/-! ## Leaving the rest alone -/

/--
One node is put among siblings. It takes the place of the first node of its name and has the identity
of that node, and its kind if the path goes on, or it comes last where no node has its name.
-/
inductive PutsOne (name : String) (goesOn : Prop) : Forest → Forest → Prop
  | replaced (before : List Node) {n m : Node} (after : List Node) (hold : n.name = name)
      (hbefore : name ∉ names before) (hname : m.name = n.name) (hid : m.id = n.id)
      (hkind : goesOn → m.kind = n.kind) :
      PutsOne name goesOn (before ++ n :: after) (before ++ m :: after)
  | appended {nodes : Forest} {m : Node} (hnodes : name ∉ names nodes) (hname : m.name = name) :
      PutsOne name goesOn nodes (nodes ++ [m])

theorem putsOne_self {n : Node} (goesOn : Prop) (hnamed : nodes.named? head = some n) :
    PutsOne head goesOn nodes nodes := by
  obtain ⟨hname, before, after, rfl, hbefore⟩ := eq_append_of_named? hnamed
  exact .replaced before after hname hbefore rfl rfl fun _ ↦ rfl

theorem Puts.putsOne (h : Puts payload nodes head tail new outcome) :
    PutsOne head (tail ≠ []) nodes new := by
  cases h with
  | created n hnone => exact .appended (named?_eq_none_iff.1 hnone) rfl
  | opened n hnone => exact .appended (named?_eq_none_iff.1 hnone) rfl
  | unchanged hnamed => exact putsOne_self _ hnamed
  | updated n after hbefore =>
    exact .replaced _ after rfl hbefore rfl rfl fun hgoesOn ↦ absurd rfl hgoesOn
  | blocked hnamed => exact putsOne_self _ hnamed
  | inside n after hbefore hchildren h =>
    refine .replaced _ after rfl hbefore rfl rfl fun _ ↦ ?_
    obtain ⟨id, name, payload⟩ := n
    cases payload <;> rfl

/-- On the next level the rest of the path is put among the children, or among none if there was no
node of the name. A leaf of the name leaves everything as it is. -/
theorem Puts.descend {next : String} {rest : List String}
    (h : Puts payload nodes head (next :: rest) new outcome) :
    (new = nodes ∧ nodes.childrenNamed? head = none) ∨
      ∃ changed, new.childrenNamed? head = some changed ∧
        Puts payload ((nodes.childrenNamed? head).getD []) next rest changed outcome := by
  cases h with
  | opened n hnone hpayload h =>
    refine .inr ⟨_, childrenNamed?_append hnone hpayload, ?_⟩
    rw [childrenNamed?, hnone]
    exact h
  | blocked hnamed hleaf =>
    refine .inl ⟨rfl, ?_⟩
    rw [childrenNamed?, hnamed]
    exact hleaf
  | inside n after hbefore hchildren h =>
    refine .inr ⟨_, childrenNamed?_withChildren after hbefore hchildren, ?_⟩
    rw [childrenNamed?_insert after hbefore hchildren]
    exact h

theorem siblingsAlong?_nil (segments : List String) :
    (siblingsAlong? [] segments).getD [] = [] := by
  cases segments <;> rfl

/-- On each level of the path one node is put among the siblings that were there, if any were. -/
theorem Puts.level (h : Puts payload nodes head tail new outcome) {init rest : List String}
    {name : String} (hsegments : head :: tail = init ++ name :: rest) :
    ((nodes.siblingsAlong? init).isSome → (new.siblingsAlong? init).isSome) ∧
      ∀ siblings, new.siblingsAlong? init = some siblings →
        PutsOne name (rest ≠ []) ((nodes.siblingsAlong? init).getD []) siblings := by
  induction init generalizing nodes head tail new with
  | nil =>
    obtain ⟨rfl, rfl⟩ := List.cons.inj hsegments
    refine ⟨fun _ ↦ rfl, fun siblings hnew ↦ ?_⟩
    rw [← Option.some.inj hnew]
    exact h.putsOne
  | cons first init ih =>
    obtain ⟨rfl, htail⟩ := List.cons.inj hsegments
    cases tail with
    | nil => simp at htail
    | cons next tail =>
      rcases h.descend with ⟨rfl, hnone⟩ | ⟨changed, hchanged, hbelow⟩
      · simp [siblingsAlong?, hnone]
      · have hlevel := ih hbelow htail
        rw [siblingsAlong?, siblingsAlong?, hchanged, Option.bind_some]
        cases hchildren : nodes.childrenNamed? head with
        | some children =>
          rw [hchildren] at hlevel
          exact hlevel
        | none =>
          -- The level is new, so nothing was there before what has been put.
          rw [hchildren, Option.getD_none, siblingsAlong?_nil] at hlevel
          exact ⟨(nomatch ·), hlevel.2⟩

/-- Names but the first one of the path stand for what they stood for. -/
theorem Puts.named?_of_ne {name : String} (h : Puts payload nodes head tail new outcome)
    (hne : head ≠ name) : new.named? name = nodes.named? name := by
  cases h with
  | created | opened => exact named?_append_of_ne hne
  | unchanged | blocked => rfl
  | updated | inside => exact named?_insert_of_ne rfl hne

theorem namedAlong?_congr {nodes' : Forest} (hnamed : nodes'.named? head = nodes.named? head)
    (tail : List String) : nodes'.namedAlong? head tail = nodes.namedAlong? head tail := by
  cases tail <;> simp only [namedAlong?, childrenNamed?, hnamed]

theorem namedAlong?_nil (head : String) (tail : List String) : namedAlong? [] head tail = none := by
  cases tail <;> rfl

/-- Segments that part from the path lead by names to what they led to. -/
theorem Puts.namedAlong?_eq {head' : String} {tail' : List String}
    (h : Puts payload nodes head tail new outcome) (hbelow : ¬ head :: tail <+: head' :: tail')
    (habove : ¬ head' :: tail' <+: head :: tail) :
    new.namedAlong? head' tail' = nodes.namedAlong? head' tail' := by
  induction tail generalizing nodes head new head' tail' with
  | nil =>
    apply namedAlong?_congr (h.named?_of_ne ?_)
    rintro rfl
    exact hbelow (List.cons_prefix_cons.2 ⟨rfl, List.nil_prefix⟩)
  | cons next rest ih =>
    by_cases hne : head = head'
    · subst hne
      rw [List.cons_prefix_cons, and_iff_right rfl] at hbelow habove
      cases tail' with
      | nil => exact absurd List.nil_prefix habove
      | cons next' rest' =>
        rcases h.descend with ⟨rfl, -⟩ | ⟨changed, hchanged, hputs⟩
        · rfl
        · rw [namedAlong?, namedAlong?, hchanged, Option.bind_some, ih hputs hbelow habove]
          cases nodes.childrenNamed? head with
          | some children => rfl
          | none => exact namedAlong?_nil next' rest'
    · exact namedAlong?_congr (h.named?_of_ne hne) tail'

/-- How little a tree changes if something is put at a path. -/
structure DiffersAlong (path : Path) (root new : Forest) : Prop where
  /-- On each level of the path that there was, one node is put among the siblings. -/
  there : ∀ init name rest siblings, path.segments = init ++ name :: rest →
    root.siblingsAlong? init = some siblings →
    ∃ siblings', new.siblingsAlong? init = some siblings' ∧
      PutsOne name (rest ≠ []) siblings siblings'
  /-- On each level that is new, one node is put where there was none. -/
  made : ∀ init name rest siblings, path.segments = init ++ name :: rest →
    root.siblingsAlong? init = none → new.siblingsAlong? init = some siblings →
    PutsOne name (rest ≠ []) [] siblings
  /-- A path that parts from it leads by names to the very node that it led to, or still to none. -/
  elsewhere : ∀ other : Path, ¬ path.segments <+: other.segments →
    ¬ other.segments <+: path.segments → new.namedAt? other = root.namedAt? other

/-- Putting at a path changes one node on each level of the path, and nothing elsewhere. -/
theorem differsAlong_put (supply : Supply) (root : Forest) (path : Path) (payload : Payload Node) :
    DiffersAlong path root (root.put supply path payload).1 := by
  have hputs : Puts payload root path.head path.tail (root.put supply path payload).1 _ :=
    puts_putAlong supply payload root path.head path.tail
  constructor
  · intro init name rest siblings hsegments hold
    obtain ⟨hsome, hlevel⟩ := hputs.level hsegments
    rw [hold] at hsome hlevel
    obtain ⟨siblings', hnew⟩ := Option.isSome_iff_exists.1 (hsome rfl)
    exact ⟨siblings', hnew, hlevel siblings' hnew⟩
  · intro init name rest siblings hsegments hold hnew
    have hlevel := (hputs.level hsegments).2 siblings hnew
    rwa [hold] at hlevel
  · intro other hbelow habove
    exact hputs.namedAlong?_eq hbelow habove

end Forest

end KeyTree
