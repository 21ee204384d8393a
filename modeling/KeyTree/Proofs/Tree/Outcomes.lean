import KeyTree.Proofs.Tree.Kept
import KeyTree.Proofs.Tree.Overwriting

/-!
# What an outcome says

The outcome of putting a payload at a path tells what the names of the path led to before: to a leaf
too early, to nothing, or to a node with the same payload or with another one. No change is reported
just where the tree is the same afterwards.
-/

namespace KeyTree.Forest

variable {nodes children root : Forest} {head next : String} {rest tail : List String}
  {before : List Node} {n : Node} {p : Payload Node} {u : Supply}

/-! ## Leaves on the way -/

/-- Names lead to a leaf before the segments are at their end. -/
def IsBlockedAlong (nodes : Forest) (head : String) (tail : List String) : Prop :=
  ∃ short n, short <+: tail ∧ short ≠ tail ∧ nodes.namedAlong? head short = some n ∧
    n.children? = none

/-- Names lead to a leaf at some proper prefix of a path. -/
def IsBlocked (root : Forest) (path : Path) : Prop :=
  ∃ (short : Path) (n : Node), short.segments <+: path.segments ∧ short ≠ path ∧
    root.namedAt? short = some n ∧ n.children? = none

theorem isBlocked_iff {path : Path} :
    root.IsBlocked path ↔ root.IsBlockedAlong path.head path.tail := by
  obtain ⟨head, tail⟩ := path
  constructor
  · rintro ⟨⟨head', short⟩, n, hprefix, hne, hn, hleaf⟩
    obtain ⟨rfl, hprefix⟩ := List.cons_prefix_cons.1 hprefix
    exact ⟨short, n, hprefix, fun heq ↦ hne (heq ▸ rfl), hn, hleaf⟩
  · rintro ⟨short, n, hprefix, hne, hn, hleaf⟩
    refine ⟨⟨head, short⟩, n, List.cons_prefix_cons.2 ⟨rfl, hprefix⟩, ?_, hn, hleaf⟩
    exact fun heq ↦ hne (congrArg Path.tail heq)

theorem not_isBlockedAlong_nil : ¬ nodes.IsBlockedAlong head [] := by
  rintro ⟨short, n, hprefix, hne, -⟩
  exact hne (List.prefix_nil.1 hprefix)

theorem not_isBlockedAlong_of_unnamed (hnone : nodes.named? head = none) :
    ¬ nodes.IsBlockedAlong head tail := by
  rintro ⟨short, n, -, -, hn, -⟩
  rw [namedAlong?_eq_none hnone] at hn
  cases hn

theorem isBlockedAlong_of_leaf (hnamed : nodes.named? head = some n) (hleaf : n.children? = none) :
    nodes.IsBlockedAlong head (next :: rest) :=
  ⟨[], n, List.nil_prefix, (nomatch ·), hnamed, hleaf⟩

theorem namedAlong?_of_leaf (hnamed : nodes.named? head = some n) (hleaf : n.children? = none) :
    nodes.namedAlong? head (next :: rest) = none := by
  rw [namedAlong?, childrenNamed?, hnamed, Option.bind_some, hleaf, Option.bind_none]

section Inside

variable (after : List Node) (hbefore : n.name ∉ names before)
  (hchildren : n.children? = some children)

include hbefore hchildren

theorem namedAlong?_inside :
    namedAlong? (before ++ n :: after) n.name (next :: rest) = children.namedAlong? next rest := by
  rw [namedAlong?, childrenNamed?_insert after hbefore hchildren, Option.bind_some]

/-- Below a container its children decide. -/
theorem isBlockedAlong_inside :
    IsBlockedAlong (before ++ n :: after) n.name (next :: rest) ↔
      children.IsBlockedAlong next rest := by
  constructor
  · rintro ⟨short, m, hprefix, hne, hm, hleaf⟩
    cases short with
    | nil =>
      rw [namedAlong?, named?_insert n after hbefore] at hm
      obtain rfl := Option.some.inj hm
      rw [hchildren] at hleaf
      cases hleaf
    | cons name short =>
      obtain ⟨rfl, hshort⟩ := List.cons_prefix_cons.1 hprefix
      rw [namedAlong?_inside after hbefore hchildren] at hm
      exact ⟨short, m, hshort, fun heq ↦ hne (heq ▸ rfl), hm, hleaf⟩
  · rintro ⟨short, m, hprefix, hne, hm, hleaf⟩
    refine ⟨next :: short, m, List.cons_prefix_cons.2 ⟨rfl, hprefix⟩, ?_, ?_, hleaf⟩
    · exact fun heq ↦ hne (List.cons.inj heq).2
    · rwa [namedAlong?_inside after hbefore hchildren]

end Inside

/-! ## Outcomes -/

/-- What names lead to decides about the outcome. -/
theorem outcome_putAlong (u : Supply) (p : Payload Node) (nodes : Forest) (head : String)
    (tail : List String) :
    (nodes.IsBlockedAlong head tail → (putAlong u p nodes head tail).2 = .blocked) ∧
      (¬ nodes.IsBlockedAlong head tail → nodes.namedAlong? head tail = none →
        (putAlong u p nodes head tail).2 = .created) ∧
      ∀ n, nodes.namedAlong? head tail = some n →
        (putAlong u p nodes head tail).2 = if n.payload.same p then .unchanged else .updated := by
  induction nodes, head, tail using induction_along generalizing u with
  | unnamed tail hnone =>
    rw [putAlong_of_unnamed u p tail hnone, namedAlong?_eq_none hnone]
    exact ⟨fun h ↦ absurd h (not_isBlockedAlong_of_unnamed hnone), fun _ _ ↦ rfl,
      fun n hn ↦ nomatch hn⟩
  | @ends before n after hbefore =>
    rw [putAlong_named after hbefore, namedAlong?, named?_insert n after hbefore]
    refine ⟨fun h ↦ absurd h not_isBlockedAlong_nil, fun _ hn ↦ absurd hn (Option.some_ne_none n),
      fun m hm ↦ ?_⟩
    rw [Option.some.inj hm]
  | blocked next rest hnamed hleaf =>
    rw [putAlong_leaf u p next rest hnamed hleaf, namedAlong?_of_leaf hnamed hleaf]
    exact ⟨fun _ ↦ rfl, fun h ↦ absurd (isBlockedAlong_of_leaf hnamed hleaf) h,
      fun m hm ↦ nomatch hm⟩
  | inside after next rest hbefore hchildren ih =>
    rw [putAlong_inside after hbefore u p next rest hchildren,
      namedAlong?_inside after hbefore hchildren, isBlockedAlong_inside after hbefore hchildren]
    exact ih (u.skip 1)

/-- A leaf on the way leaves nothing to be found at the end. -/
theorem IsBlockedAlong.namedAlong?_eq_none (h : nodes.IsBlockedAlong head tail) :
    nodes.namedAlong? head tail = none := by
  induction nodes, head, tail using induction_along with
  | unnamed tail hnone => exact absurd h (not_isBlockedAlong_of_unnamed hnone)
  | ends => exact absurd h not_isBlockedAlong_nil
  | blocked next rest hnamed hleaf => exact namedAlong?_of_leaf hnamed hleaf
  | inside after next rest hbefore hchildren ih =>
    rw [namedAlong?_inside after hbefore hchildren]
    exact ih ((isBlockedAlong_inside after hbefore hchildren).1 h)

/-! ## Changes -/

theorem length_eq_of_same {nodes nodes' : List Node} (h : same nodes nodes' = true) :
    nodes.length = nodes'.length :=
  (twins_of_same h).length_eq

theorem not_same_append (new : Node) : ¬ same nodes (nodes ++ [new]) = true := by
  intro h
  have hlength := length_eq_of_same h
  rw [List.length_append] at hlength
  exact Nat.succ_ne_self _ hlength.symm

/-- Siblings are the same only if those in the same place are. -/
theorem same_of_same_insert {before after : List Node} {m : Node}
    (h : same (before ++ n :: after) (before ++ m :: after) = true) : n.same m = true := by
  induction before with
  | nil =>
    rw [List.nil_append, List.nil_append, same, Bool.and_eq_true] at h
    exact h.1
  | cons k before ih =>
    rw [List.cons_append, List.cons_append, same, Bool.and_eq_true] at h
    exact ih h.2

theorem same_payload_of_same {n m : Node} (h : n.same m = true) :
    n.payload.same m.payload = true := by
  obtain ⟨id, name, payload⟩ := n
  obtain ⟨id', name', payload'⟩ := m
  cases payload <;> cases payload' <;> simp_all [Node.same, Payload.same]

theorem same_of_same_withChildren {changed : Forest} (hchildren : n.children? = some children)
    (h : n.same (n.withChildren changed) = true) : same children changed = true := by
  obtain ⟨id, name, payload⟩ := n
  cases payload with
  | leaf value => cases hchildren
  | branch shape _ =>
    obtain rfl := Option.some.inj hchildren
    have hpayload := same_payload_of_same h
    rw [Node.withChildren, Payload.withChildren, Payload.same, Bool.and_eq_true] at hpayload
    exact hpayload.2

/-- A change makes another tree. -/
theorem not_same_putAlong (u : Supply) (p : Payload Node) (nodes : Forest) (head : String)
    (tail : List String) (hchange : (putAlong u p nodes head tail).2.isChange = true) :
    ¬ same nodes (putAlong u p nodes head tail).1 = true := by
  induction nodes, head, tail using induction_along generalizing u with
  | unnamed tail hnone =>
    rw [putAlong_of_unnamed u p tail hnone]
    exact not_same_append _
  | @ends before n after hbefore =>
    rw [putAlong_named after hbefore] at hchange ⊢
    intro h
    have hsame := same_payload_of_same (same_of_same_insert h)
    by_cases heq : n.payload.same p = true
    · rw [if_pos heq] at hchange
      cases hchange
    · rw [Payload.putOver_of_not_same heq] at hsame
      exact heq hsame
  | blocked next rest hnamed hleaf =>
    rw [putAlong_leaf u p next rest hnamed hleaf] at hchange
    cases hchange
  | inside after next rest hbefore hchildren ih =>
    rw [putAlong_inside after hbefore u p next rest hchildren] at hchange ⊢
    exact fun h ↦ ih (u.skip 1) hchange
      (same_of_same_withChildren hchildren (same_of_same_insert h))

/-- Whether all numbers in a tree are numbers, each of which equals itself. -/
def HasNumbers (nodes : Forest) : Prop := ∀ x : Float, .number x ∈ leaves nodes → x.isNaN = false

theorem isChange_putAlong_eq_false_iff (hnumbers : nodes.HasNumbers) :
    (putAlong u p nodes head tail).2.isChange = false ↔
      same nodes (putAlong u p nodes head tail).1 = true := by
  constructor
  · intro h
    rw [(puts_putAlong u p nodes head tail).eq_self h]
    exact same_self nodes hnumbers
  · intro h
    exact Bool.eq_false_of_not_eq_true fun hchange ↦ not_same_putAlong u p nodes head tail hchange h

/-! ## What the outcome of putting at a path says -/

/-- An outcome that says what there was at a path, and whether the new tree is another one. -/
structure Tells (root : Forest) (path : Path) (payload : Payload Node) (new : Forest)
    (outcome : Outcome) : Prop where
  blocked : outcome = .blocked ↔ root.IsBlocked path
  created : outcome = .created ↔ ¬ root.IsBlocked path ∧ root.namedAt? path = none
  unchanged : outcome = .unchanged ↔
    ∃ n, root.namedAt? path = some n ∧ n.payload.same payload = true
  updated : outcome = .updated ↔
    ∃ n, root.namedAt? path = some n ∧ n.payload.same payload = false
  change : outcome.isChange = false ↔ same root new = true

section Situations

variable {path : Path} {payload : Payload Node} {new : Forest} {outcome : Outcome}
  (hchange : outcome.isChange = false ↔ same root new = true)

include hchange

/-- Where names lead to nothing, all depends on whether a leaf is to blame. -/
theorem tells_of_missing (hn : root.namedAt? path = none)
    (hblocked : root.IsBlocked path → outcome = .blocked)
    (hcreated : ¬ root.IsBlocked path → outcome = .created) :
    Tells root path payload new outcome := by
  have hnone (m : Node) : ¬ root.namedAt? path = some m := by
    rw [hn]
    exact nofun
  by_cases h : root.IsBlocked path
  · obtain rfl := hblocked h
    exact ⟨iff_of_true rfl h, iff_of_false nofun fun hcreated ↦ hcreated.1 h,
      iff_of_false nofun fun ⟨m, hm, _⟩ ↦ hnone m hm,
      iff_of_false nofun fun ⟨m, hm, _⟩ ↦ hnone m hm, hchange⟩
  · obtain rfl := hcreated h
    exact ⟨iff_of_false nofun h, iff_of_true rfl ⟨h, hn⟩,
      iff_of_false nofun fun ⟨m, hm, _⟩ ↦ hnone m hm,
      iff_of_false nofun fun ⟨m, hm, _⟩ ↦ hnone m hm, hchange⟩

/-- Where names lead to a node, all depends on what it holds. -/
theorem tells_of_found (hn : root.namedAt? path = some n)
    (houtcome : outcome = if n.payload.same payload then .unchanged else .updated) :
    Tells root path payload new outcome := by
  have hblocked : ¬ root.IsBlocked path := by
    intro h
    rw [namedAt?, (isBlocked_iff.1 h).namedAlong?_eq_none] at hn
    cases hn
  have hsome : ¬ root.namedAt? path = none := by
    rw [hn]
    exact nofun
  have honly (m : Node) (hm : root.namedAt? path = some m) : m = n :=
    Option.some.inj (hm.symm.trans hn)
  by_cases h : n.payload.same payload = true
  · obtain rfl := houtcome.trans (if_pos h)
    refine ⟨iff_of_false nofun hblocked, iff_of_false nofun fun hcreated ↦ hsome hcreated.2,
      iff_of_true rfl ⟨n, hn, h⟩, iff_of_false nofun ?_, hchange⟩
    rintro ⟨m, hm, hother⟩
    rw [honly m hm, h] at hother
    cases hother
  · obtain rfl := houtcome.trans (if_neg h)
    refine ⟨iff_of_false nofun hblocked, iff_of_false nofun fun hcreated ↦ hsome hcreated.2,
      iff_of_false nofun ?_, iff_of_true rfl ⟨n, hn, Bool.eq_false_of_not_eq_true h⟩, hchange⟩
    rintro ⟨m, hm, hsame⟩
    rw [honly m hm] at hsame
    exact h hsame

end Situations

/-- The outcome of putting a payload at a path is true of the tree before and of the tree after. A
number that is none is not the same as itself, so there must be none for the trees to be compared. -/
theorem tells_put (supply : Supply) (path : Path) (payload : Payload Node)
    (hnumbers : root.HasNumbers) :
    Tells root path payload (root.put supply path payload).1
      (root.put supply path payload).2.1 := by
  have hchange : (root.put supply path payload).2.1.isChange = false ↔
      same root (root.put supply path payload).1 = true := isChange_putAlong_eq_false_iff hnumbers
  obtain ⟨hblocked, hcreated, hfound⟩ := outcome_putAlong supply payload root path.head path.tail
  rw [← isBlocked_iff] at hblocked hcreated
  cases hn : root.namedAt? path with
  | none => exact tells_of_missing hchange hn hblocked fun hnot ↦ hcreated hnot hn
  | some n => exact tells_of_found hchange hn (hfound n hn)

/-- A text that is put in place of another one, below a name that stands twice. -/
theorem tells_put_crossed : crossed.HasNumbers ∧
    Tells crossed ⟨"d", ["x"]⟩ (.leaf (.text "u"))
      (crossed.put ⟨0⟩ ⟨"d", ["x"]⟩ (.leaf (.text "u"))).1
      (crossed.put ⟨0⟩ ⟨"d", ["x"]⟩ (.leaf (.text "u"))).2.1 := by
  have hnumbers : crossed.HasNumbers := by
    intro x hx
    simp [crossed, leaves, Node.leaves] at hx
  exact ⟨hnumbers, tells_put ⟨0⟩ ⟨"d", ["x"]⟩ (.leaf (.text "u")) hnumbers⟩

end KeyTree.Forest
