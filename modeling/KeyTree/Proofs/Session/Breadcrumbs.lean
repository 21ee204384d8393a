import KeyTree.Proofs.Session.Scopes

/-!
# Names along a scope

A scope leads through containers up to some place and then no further, as calls replace what it names.
The names along it are those of the containers that it still leads through. If the next identity has
come to name a leaf, the name of this leaf follows them, although it leads to no container any more.
-/

namespace KeyTree

namespace Forest

variable {nodes current : Forest} {scope live stale part : Scope} {containers below : List Node}

/-! ## The way of a scope -/

/-- The containers that a scope leads through, the outermost first, and the siblings that it ends at. -/
inductive LeadsThrough : Forest → Scope → List Node → Forest → Prop
  | here (nodes : Forest) : LeadsThrough nodes [] [] nodes
  | inside {nodes children current : Forest} {n : Node} {id : String} {rest : Scope}
      {below : List Node} (hid : nodes.withId? id = some n) (hchildren : n.children? = some children)
      (h : LeadsThrough children rest below current) :
      LeadsThrough nodes (id :: rest) (n :: below) current

namespace LeadsThrough

theorem length_eq (h : nodes.LeadsThrough scope containers current) :
    containers.length = scope.length := by
  induction h with
  | here nodes => rfl
  | inside hid hchildren h ih => exact congrArg (· + 1) ih

theorem within?_eq (h : nodes.LeadsThrough scope containers current) :
    nodes.within? scope = some current := by
  induction h with
  | here nodes => rfl
  | inside hid hchildren h ih =>
    rw [within?, hid, Option.bind_some, hchildren, Option.bind_some]
    exact ih

theorem within_eq (h : nodes.LeadsThrough scope containers current) :
    nodes.within scope = current := by
  rw [within_eq_getD, h.within?_eq, Option.getD_some]

end LeadsThrough

/-- Reading follows a scope through containers alone. -/
theorem exists_leadsThrough (h : nodes.within? scope = some current) :
    ∃ containers, nodes.LeadsThrough scope containers current := by
  induction scope generalizing nodes with
  | nil =>
    obtain rfl : nodes = current := Option.some.inj h
    exact ⟨[], .here nodes⟩
  | cons id rest ih =>
    rw [within?] at h
    obtain ⟨children, hbind, hrest⟩ := Option.bind_eq_some_iff.1 h
    obtain ⟨n, hid, hchildren⟩ := Option.bind_eq_some_iff.1 hbind
    obtain ⟨containers, hleads⟩ := ih hrest
    exact ⟨n :: containers, .inside hid hchildren hleads⟩

/-! ## Where it ends -/

/-- A scope is cut where the containers end: what comes next names a leaf, or nothing. -/
structure CutAt (nodes : Forest) (live stale : Scope) (containers : List Node) (current : Forest) :
    Prop where
  leads : nodes.LeadsThrough live containers current
  stops : ∀ id ∈ stale.head?, ∀ n ∈ current.withId? id, n.children? = none

/-- Every scope leads through containers up to some place. -/
theorem exists_cutAt (nodes : Forest) (scope : Scope) : ∃ live stale containers current,
    scope = live ++ stale ∧ nodes.CutAt live stale containers current := by
  induction scope generalizing nodes with
  | nil => exact ⟨[], [], [], nodes, rfl, .here nodes, fun id hid ↦ by cases hid⟩
  | cons id rest ih =>
    cases hid : nodes.withId? id with
    | none =>
      refine ⟨[], id :: rest, [], nodes, rfl, .here nodes, ?_⟩
      intro next hnext n hn
      obtain rfl : id = next := Option.some.inj hnext
      rw [hid] at hn
      cases hn
    | some n =>
      cases hchildren : n.children? with
      | none =>
        refine ⟨[], id :: rest, [], nodes, rfl, .here nodes, ?_⟩
        intro next hnext m hm
        obtain rfl : id = next := Option.some.inj hnext
        obtain rfl : n = m := Option.some.inj (hid.symm.trans hm)
        exact hchildren
      | some children =>
        obtain ⟨live, stale, containers, current, rfl, hcut⟩ := ih children
        exact ⟨id :: live, stale, n :: containers, current, rfl, .inside hid hchildren hcut.leads,
          hcut.stops⟩

namespace CutAt

/-- No longer part of the scope leads through containers. -/
theorem longest (h : nodes.CutAt live stale containers current) {reached : Forest}
    (hpart : part <+: live ++ stale) (hleads : nodes.LeadsThrough part below reached) :
    part <+: live := by
  obtain ⟨hlive, hstops⟩ := h
  induction hlive generalizing part below reached with
  | here nodes =>
    cases hleads with
    | here => exact List.nil_prefix
    | @inside _ children _ n id rest below hid hchildren hrest =>
      obtain ⟨after, hafter⟩ := hpart
      have hhead : id ∈ stale.head? := by
        rw [← List.nil_append stale, ← hafter]
        rfl
      rw [hstops id hhead n hid] at hchildren
      cases hchildren
  | @inside nodes children current n id live containers hid hchildren h ih =>
    cases hleads with
    | here => exact List.nil_prefix
    | @inside _ children' _ m id' rest below hid' hchildren' hrest =>
      obtain ⟨rfl, hrest'⟩ := List.cons_prefix_cons.1 hpart
      obtain rfl : n = m := Option.some.inj (hid.symm.trans hid')
      obtain rfl : children = children' := Option.some.inj (hchildren.symm.trans hchildren')
      exact List.cons_prefix_cons.2 ⟨rfl, ih hrest' hrest hstops⟩

/-- A scope leads to a container if nothing of it is cut off, unless it leads to the root. -/
theorem stale_eq_nil_iff (h : nodes.CutAt live stale containers current) :
    stale = [] ↔ live ++ stale = [] ∨ (nodes.container? (live ++ stale)).isSome := by
  rw [← not_iff_not, not_or, Option.not_isSome_iff_eq_none, ← ne_eq (live ++ stale),
    ← within?_eq_none_iff]
  constructor
  · intro hstale
    by_contra hsome
    obtain ⟨reached, hreached⟩ := Option.ne_none_iff_exists'.1 hsome
    obtain ⟨below, hleads⟩ := exists_leadsThrough hreached
    have hlength := (h.longest List.prefix_rfl hleads).length_le
    rw [List.length_append] at hlength
    exact hstale (List.length_eq_zero_iff.1 (by omega))
  · rintro hnone rfl
    rw [List.append_nil, h.leads.within?_eq] at hnone
    cases hnone

end CutAt

end Forest

namespace Session

variable {s : Session} {nodes current : Forest} {live stale : Scope} {containers : List Node}

/-! ## The names -/

theorem namesAlong_append (h : nodes.LeadsThrough live containers current) (stale : Scope) :
    namesAlong nodes (live ++ stale) = containers.map Node.name ++ namesAlong current stale := by
  induction h with
  | here nodes => rfl
  | inside hid hchildren h ih =>
    rw [List.cons_append, namesAlong, hid]
    dsimp only
    rw [hchildren, Option.getD_some, ih]
    rfl

/-- Where the containers end, the next identity may have come to name a leaf. Its name is the last. -/
theorem namesAlong_of_stops
    (h : ∀ id ∈ stale.head?, ∀ n ∈ current.withId? id, n.children? = none) :
    namesAlong current stale = (stale.head?.bind current.withId?).toList.map Node.name := by
  cases stale with
  | nil => rfl
  | cons id rest =>
    rw [namesAlong, List.head?_cons, Option.bind_some]
    cases hid : current.withId? id with
    | none => rfl
    | some n =>
      have hnothing : namesAlong [] rest = [] := by
        cases rest <;> rfl
      dsimp only
      rw [h id rfl n hid, Option.getD_none, hnothing]
      rfl

/--
The names along the scope of a session, part by part: the scope leads through containers as far as
`live` and no further, and a leaf may have taken the place of the next one.
-/
structure Trail (s : Session) (live stale : Scope) (containers : List Node) (leaf? : Option Node) :
    Prop where
  scope : s.scope = live ++ stale
  leads : s.root.LeadsThrough live containers (s.root.within live)
  longest : ∀ part below current, part <+: s.scope → s.root.LeadsThrough part below current →
    part <+: live
  leaf : leaf? = stale.head?.bind (s.root.within live).withId?
  isLeaf : ∀ n ∈ leaf?, n.children? = none
  names : s.breadcrumbs = (containers ++ leaf?.toList).map Node.name
  names_iff : s.breadcrumbs = containers.map Node.name ↔ leaf? = none
  length_iff : s.breadcrumbs.length = s.scope.length ↔
    (s.scope = [] ∨ s.container?.isSome) ∨ leaf?.isSome ∧ stale.length = 1

/-- A leaf is the only name that stands for no container, and it stands for one identity. -/
theorem trail_of_cutAt (hscope : s.scope = live ++ stale)
    (h : s.root.CutAt live stale containers current) :
    s.Trail live stale containers (stale.head?.bind current.withId?) := by
  have hnames : s.breadcrumbs =
      (containers ++ (stale.head?.bind current.withId?).toList).map Node.name := by
    rw [breadcrumbs, hscope, namesAlong_append h.leads, namesAlong_of_stops h.stops, List.map_append]
  constructor
  case scope => exact hscope
  case leads => exact h.leads.within_eq.symm ▸ h.leads
  case longest =>
    intro part below reached hpart hleads
    exact h.longest (hscope ▸ hpart) hleads
  case leaf => rw [h.leads.within_eq]
  case isLeaf =>
    intro n hn
    obtain ⟨id, hid, hn⟩ := Option.bind_eq_some_iff.1 hn
    exact h.stops id hid n hn
  case names => exact hnames
  case names_iff =>
    rw [hnames, List.map_append, List.append_right_eq_self, List.map_eq_nil_iff,
      Option.toList_eq_nil_iff]
  case length_iff =>
    have hstale := h.stale_eq_nil_iff
    rw [← hscope] at hstale
    rw [hnames, container?, ← hstale, List.length_map, List.length_append, h.leads.length_eq, hscope,
      List.length_append, Nat.add_left_cancel_iff, ← List.length_eq_zero_iff]
    cases hleaf : stale.head?.bind current.withId? with
    | none =>
      rw [Option.toList_none, List.length_nil]
      exact ⟨fun h ↦ .inl h.symm, fun h ↦ h.elim Eq.symm fun h ↦ absurd h.1 Bool.false_ne_true⟩
    | some n =>
      have hsome : stale.length ≠ 0 := by
        intro hnil
        rw [List.length_eq_zero_iff.1 hnil] at hleaf
        cases hleaf
      rw [Option.toList_some, List.length_singleton]
      exact ⟨fun h ↦ .inr ⟨rfl, h.symm⟩, fun h ↦ h.elim (absurd · hsome) fun h ↦ h.2.symm⟩

/--
The breadcrumbs of a session, whatever calls have led to it, are the names of the containers on the
longest part of the scope that leads through containers alone, and then the name of the leaf that the
next identity finds, if it finds one. They are as many as the identities of the scope if and only if
this leads to a container or is empty, or a leaf has taken the place of its last container.
-/
theorem exists_trail (s : Session) : ∃ live stale containers leaf?,
    s.Trail live stale containers leaf? := by
  obtain ⟨live, stale, containers, current, hscope, hcut⟩ := Forest.exists_cutAt s.root s.scope
  exact ⟨live, stale, containers, _, trail_of_cutAt hscope hcut⟩

/-- A dictionary is put in and entered, and then a text is put in its place. -/
def flattened : Session :=
  (vacant 0).run [.set "x" .null "dictionary", .navigate "x", .set "x" (.text "flat") "text"]

/-- The name of the text stays, although the scope leads through no container any more. -/
theorem exists_leaf_named : (vacant 0).root.IsIdentified (vacant 0).supply ∧
    flattened.scope ≠ [] ∧ flattened.container? = none ∧ flattened.breadcrumbs = ["x"] ∧
    ∀ part containers current, part <+: flattened.scope →
      flattened.root.LeadsThrough part containers current → containers = [] := by
  refine ⟨⟨List.nodup_nil, fun _ _ ↦ List.not_mem_nil⟩, by decide, by rfl, by decide, ?_⟩
  intro part containers current hpart hleads
  cases hleads with
  | here => rfl
  | @inside _ children _ n id rest below hid hchildren hrest =>
    have hscope : flattened.scope = [Supply.idOf 0] := by decide
    rw [hscope] at hpart
    obtain ⟨rfl, -⟩ := List.cons_prefix_cons.1 hpart
    have hroot : flattened.root = [⟨Supply.idOf 0, "x", .leaf (.text "flat")⟩] := by rfl
    rw [hroot] at hid
    obtain rfl := Option.some.inj hid
    cases hchildren

end Session

end KeyTree
