import KeyTree.Proofs.Tree.Lens
import KeyTree.Proofs.Tree.Lookup

/-!
# The way that segments lead

Segments lead down through containers, each by a name or a position, and the scope of a container is
the identities on the way to it. A path is looked up along the same way that its scope is found, and
where siblings have different identities, the scope leads back to what the path does.
-/

namespace KeyTree

/-! ## Paths -/

namespace Path

/-- The path that a text spells is that of its fields, if all of them are segments. -/
theorem parse_eq_ok_iff {text : String} {p : Path} : parse text = .ok p ↔
    (∀ segment ∈ Text.fieldList '.' text.toList, isSegment segment = true) ∧
      p.segments = (Text.fieldList '.' text.toList).map String.ofList := by
  unfold parse
  dsimp only
  split
  case h_1 segment hfind =>
    refine iff_of_false (fun h ↦ by cases h) fun h ↦ ?_
    have hsegment := h.1 segment (List.mem_of_find?_eq_some hfind)
    have hnot := List.find?_some hfind
    rw [hsegment] at hnot
    cases hnot
  case h_2 hfind =>
    rw [List.find?_eq_none] at hfind
    have hall : ∀ segment ∈ Text.fieldList '.' text.toList, isSegment segment = true := by
      intro segment hsegment
      have hnot := hfind segment hsegment
      rwa [Bool.not_eq_true, Bool.not_eq_false'] at hnot
    rw [and_iff_right hall]
    obtain ⟨head, tail⟩ := p
    constructor
    · intro h
      rw [← Except.ok.inj h]
      rfl
    · intro h
      obtain ⟨rfl, rfl⟩ := List.cons.inj h
      rfl

theorem fieldList_append (outer inner : String) :
    Text.fieldList '.' (outer ++ "." ++ inner).toList =
      Text.fieldList '.' outer.toList ++ Text.fieldList '.' inner.toList := by
  calc Text.fieldList '.' (outer ++ "." ++ inner).toList
      = Text.fieldList '.' (outer.toList ++ '.' :: inner.toList) := by
        rw [String.toList_append, String.toList_append, List.append_assoc]
        rfl
    _ = Text.fieldList '.' outer.toList ++ Text.fieldList '.' inner.toList :=
        Text.fieldList_append outer.toList inner.toList

/-- Two texts with a point between them spell a path just where both of them do. -/
theorem parse_append_eq_ok_iff {outer inner : String} {r : Path} :
    parse (outer ++ "." ++ inner) = .ok r ↔
      ∃ p q, parse outer = .ok p ∧ parse inner = .ok q ∧ r.segments = p.segments ++ q.segments := by
  rw [parse_eq_ok_iff, fieldList_append, List.forall_mem_append, List.map_append]
  constructor
  · rintro ⟨⟨houter, hinner⟩, hr⟩
    exact ⟨⟨_, _⟩, ⟨_, _⟩, parse_eq_ok_iff.2 ⟨houter, rfl⟩, parse_eq_ok_iff.2 ⟨hinner, rfl⟩, hr⟩
  · rintro ⟨p, q, hp, hq, hr⟩
    obtain ⟨houter, hp⟩ := parse_eq_ok_iff.1 hp
    obtain ⟨hinner, hq⟩ := parse_eq_ok_iff.1 hq
    rw [hr, hp, hq]
    exact ⟨⟨houter, hinner⟩, rfl⟩

/-- The segments on the way to a container. The empty path is that of the root. -/
def segmentsTo? (path : String) : Option (List String) :=
  if path.isEmpty then some [] else (parse path).toOption.map segments

theorem segmentsTo?_of_parse {path : String} {p : Path} (hempty : path ≠ "")
    (h : parse path = .ok p) : segmentsTo? path = some p.segments := by
  rw [segmentsTo?, if_neg fun h ↦ hempty (String.isEmpty_iff.1 h), h]
  rfl

theorem segmentsTo?_of_error {path : String} {fault : PathFault} (hempty : path ≠ "")
    (h : parse path = .error fault) : segmentsTo? path = none := by
  rw [segmentsTo?, if_neg fun h ↦ hempty (String.isEmpty_iff.1 h), h]
  rfl

/-- Before the last point of a path stands the path of the container. -/
theorem segmentsTo?_containerText {path last : String} {p : Path} {init : List String}
    (h : parse path = .ok p) (hlast : p.head :: p.tail = init ++ [last]) :
    segmentsTo? (containerText path) = some init := by
  obtain ⟨hall, hfields⟩ := parse_eq_ok_iff.1 h
  have hinit : (Text.fieldList '.' path.toList).dropLast.map String.ofList = init := by
    rw [List.map_dropLast, ← hfields]
    exact (congrArg List.dropLast hlast).trans List.dropLast_concat
  have hsegments : ∀ segment ∈ (Text.fieldList '.' path.toList).dropLast, isSegment segment = true :=
    fun segment hsegment ↦ hall segment (List.mem_of_mem_dropLast hsegment)
  unfold containerText
  cases houter : (Text.fieldList '.' path.toList).dropLast with
  | nil =>
    rw [houter] at hinit
    rw [← hinit]
    rfl
  | cons first others =>
    rw [houter] at hinit hsegments
    have hparse := parse_joined hsegments
    have hempty : String.ofList (Text.joined ['.'] (first :: others)) ≠ "" := by
      intro heq
      rw [heq] at hparse
      cases hparse
    rw [segmentsTo?_of_parse hempty hparse, ← hinit]
    rfl

end Path

namespace Forest

variable {nodes root children siblings found : Forest} {segments : List String} {scope : Scope}
  {segment head : String} {tail : List String} {n : Node}

/-! ## One segment -/

theorem mem_of_child? {positional : Bool} (h : nodes.child? segment positional = .ok (some n)) :
    n ∈ nodes := by
  unfold child? at h
  split at h
  case h_1 m hnamed =>
    obtain rfl := Option.some.inj (Except.ok.inj h)
    exact List.mem_of_find?_eq_some hnamed
  case h_2 =>
    dsimp only at h
    split at h
    case isTrue =>
      obtain ⟨index, -, hindex⟩ := exists_of_map_eq_ok h
      exact List.mem_of_getElem? hindex
    case isFalse => cases Except.ok.inj h

/-! ## Ways through containers -/

/-- Segments lead through containers of some identities to some siblings. -/
inductive Leads : Forest → List String → Scope → Forest → Prop
  | here (nodes : Forest) : Leads nodes [] [] nodes
  | inside {nodes children siblings : Forest} {segment : String} {rest : List String} {n : Node}
      {scope : Scope} (hchild : nodes.child? segment true = .ok (some n))
      (hchildren : n.children? = some children) (h : Leads children rest scope siblings) :
      Leads nodes (segment :: rest) (n.id :: scope) siblings

theorem Leads.length_eq (h : Leads nodes segments scope siblings) :
    scope.length = segments.length := by
  induction h with
  | here => rfl
  | inside _ _ _ ih => rw [List.length_cons, List.length_cons, ih]

theorem Leads.snoc (h : Leads nodes segments scope siblings)
    (hchild : siblings.child? segment true = .ok (some n)) (hchildren : n.children? = some children) :
    Leads nodes (segments ++ [segment]) (scope ++ [n.id]) children := by
  induction h with
  | here => exact .inside hchild hchildren (.here children)
  | inside hfirst hinner _ ih => exact .inside hfirst hinner (ih hchild)

/-- The last container on a way. -/
theorem Leads.exists_last (h : Leads nodes (segments ++ [segment]) scope children) :
    ∃ init siblings n, Leads nodes segments init siblings ∧
      siblings.child? segment true = .ok (some n) ∧ n.children? = some children ∧
      scope = init ++ [n.id] := by
  induction segments generalizing nodes scope with
  | nil =>
    cases h with
    | inside hchild hchildren h =>
      cases h with
      | here => exact ⟨[], nodes, _, .here nodes, hchild, hchildren, rfl⟩
  | cons first rest ih =>
    cases h with
    | inside hchild hchildren h =>
      obtain ⟨init, siblings, n, hleads, hlast, hbelow, rfl⟩ := ih h
      exact ⟨_, siblings, n, .inside hchild hchildren hleads, hlast, hbelow, rfl⟩

/-- The scope that is found for a container is that of the way to it. -/
theorem scopeAlong?_eq_some_iff :
    nodes.scopeAlong? segments = .ok (some scope) ↔ ∃ siblings, Leads nodes segments scope siblings := by
  induction segments generalizing nodes scope with
  | nil =>
    constructor
    · intro h
      obtain rfl := Option.some.inj (Except.ok.inj h)
      exact ⟨nodes, .here nodes⟩
    · rintro ⟨siblings, h⟩
      cases h with
      | here => rfl
  | cons segment rest ih =>
    rw [scopeAlong?]
    constructor
    · intro h
      obtain ⟨found, hchild, h⟩ := exists_of_bind_eq_ok h
      cases found with
      | none => cases Except.ok.inj h
      | some n =>
        dsimp only at h
        cases hchildren : n.children? with
        | none =>
          rw [hchildren] at h
          cases Except.ok.inj h
        | some children =>
          rw [hchildren] at h
          obtain ⟨below, hbelow, h⟩ := exists_of_bind_eq_ok h
          obtain ⟨deeper, rfl, rfl⟩ := Option.map_eq_some_iff.1 (Except.ok.inj h)
          obtain ⟨siblings, hleads⟩ := ih.1 hbelow
          exact ⟨siblings, .inside hchild hchildren hleads⟩
    · rintro ⟨siblings, h⟩
      cases h with
      | @inside _ children _ _ _ n _ hchild hchildren h =>
        rw [hchild]
        simp only [bind, Except.bind, hchildren, ih.2 ⟨siblings, h⟩]
        rfl

theorem scopeOf?_of_some {path : String} (root : Forest) (h : Path.segmentsTo? path = some segments) :
    root.scopeOf? path = root.scopeAlong? segments := by
  unfold Path.segmentsTo? at h
  unfold scopeOf?
  split at h
  case isTrue hempty =>
    obtain rfl := Option.some.inj h
    exact if_pos hempty
  case isFalse hempty =>
    rw [if_neg hempty]
    cases hparse : Path.parse path with
    | error fault =>
      rw [hparse] at h
      cases h
    | ok p =>
      rw [hparse] at h
      obtain rfl := Option.some.inj h
      rfl

theorem scopeOf?_of_none {path : String} (root : Forest) (h : Path.segmentsTo? path = none) :
    root.scopeOf? path = .ok none := by
  unfold Path.segmentsTo? at h
  unfold scopeOf?
  split at h
  case isTrue => cases h
  case isFalse hempty =>
    rw [if_neg hempty]
    cases hparse : Path.parse path with
    | error fault => rfl
    | ok p =>
      rw [hparse] at h
      cases h

/-- A path is navigated to along the way of its segments. -/
theorem exists_leads_of_scopeOf? {path : String} (h : root.scopeOf? path = .ok (some scope)) :
    ∃ segments siblings, Path.segmentsTo? path = some segments ∧
      Leads root segments scope siblings := by
  cases hsegments : Path.segmentsTo? path with
  | none =>
    rw [scopeOf?_of_none root hsegments] at h
    cases Except.ok.inj h
  | some segments =>
    rw [scopeOf?_of_some root hsegments] at h
    obtain ⟨siblings, hleads⟩ := scopeAlong?_eq_some_iff.1 h
    exact ⟨segments, siblings, rfl, hleads⟩

/-- What is looked up is a child at the end of the way that leads through all segments but the last. -/
theorem follow?_append_singleton_iff (h : head :: tail = segments ++ [segment]) :
    nodes.follow? head tail = .ok (some n) ↔
      ∃ scope siblings, Leads nodes segments scope siblings ∧
        siblings.child? segment true = .ok (some n) := by
  induction segments generalizing nodes head tail with
  | nil =>
    obtain ⟨rfl, rfl⟩ := List.cons.inj h
    constructor
    · intro hchild
      exact ⟨[], nodes, .here nodes, hchild⟩
    · rintro ⟨scope, siblings, hleads, hchild⟩
      cases hleads with
      | here => exact hchild
  | cons first rest ih =>
    obtain ⟨rfl, rfl⟩ := List.cons.inj h
    -- The last segment stands behind, so that the first one is never the one that is looked up.
    obtain ⟨next, more, hnext⟩ := List.exists_cons_of_ne_nil
      (List.append_ne_nil_of_right_ne_nil rest (List.cons_ne_nil segment []))
    change nodes.follow? head (rest ++ [segment]) = _ ↔ _
    rw [hnext, follow?]
    constructor
    · intro hfollow
      obtain ⟨found, hchild, hfollow⟩ := exists_of_bind_eq_ok hfollow
      split at hfollow
      case h_1 => cases Except.ok.inj hfollow
      case h_2 children hbelow =>
        obtain ⟨m, rfl, hchildren⟩ := Option.bind_eq_some_iff.1 hbelow
        obtain ⟨scope, siblings, hleads, hlast⟩ := (ih hnext.symm).1 hfollow
        exact ⟨m.id :: scope, siblings, .inside hchild hchildren hleads, hlast⟩
    · rintro ⟨scope, siblings, hleads, hlast⟩
      cases hleads with
      | inside hchild hchildren hleads =>
        rw [hchild]
        simp only [bind, Except.bind, Option.bind_some, hchildren]
        exact (ih hnext.symm).2 ⟨_, siblings, hleads, hlast⟩

/-! ## Ways among siblings of different identities -/

theorem within?_of_mem {among : String → Prop} (h : nodes.IsApart among) (hn : n ∈ nodes)
    (hchildren : n.children? = some children) (rest : Scope) :
    nodes.within? (n.id :: rest) = children.within? rest := by
  obtain ⟨before, after, rfl, hbefore, -⟩ := h.exists_insert hn
  exact within?_insert after hbefore hchildren rest

/-- The scope of a way leads where the way does. -/
theorem Leads.within?_eq {among : String → Prop} (h : Leads nodes segments scope siblings)
    (hnodes : nodes.IsApart among) :
    nodes.within? scope = some siblings ∧ siblings.IsApart among := by
  induction h with
  | here => exact ⟨rfl, hnodes⟩
  | inside hchild hchildren _ ih =>
    have hn := mem_of_child? hchild
    rw [within?_of_mem hnodes hn hchildren]
    exact ih (Node.isApart_of_children? (hnodes.below _ hn) hchildren)

theorem container?_append_singleton {id : String} (h : nodes.within? scope = some siblings)
    (hid : siblings.withId? id = some n) (hchildren : n.children? = some children) :
    nodes.container? (scope ++ [id]) = some n := by
  induction scope generalizing nodes with
  | nil =>
    obtain rfl := Option.some.inj h
    rw [List.nil_append, container?, hid]
    simp only [hchildren]
  | cons first rest ih =>
    rw [within?] at h
    obtain ⟨inner, hinner, hrest⟩ := Option.bind_eq_some_iff.1 h
    obtain ⟨m, hm, hbelow⟩ := Option.bind_eq_some_iff.1 hinner
    obtain ⟨next, more, hnext⟩ := List.exists_cons_of_ne_nil
      (List.append_ne_nil_of_right_ne_nil rest (List.cons_ne_nil id []))
    have hcontainer := ih hrest
    rw [hnext] at hcontainer
    rw [List.cons_append, hnext, container?, hm]
    simp only [hbelow]
    exact hcontainer

/-! ## Ways in a tree that is written -/

theorem child?_map {f : Node → Node} (hf : ∀ n, (f n).name = n.name) (nodes : Forest)
    (segment : String) (positional : Bool) :
    child? (nodes.map f) segment positional =
      (nodes.child? segment positional).map (Option.map f) := by
  have hname : (fun n : Node ↦ n.name == segment) ∘ f = fun n ↦ n.name == segment := by
    funext n
    rw [Function.comp_apply, hf]
  have hnamed : named? (nodes.map f) segment = (nodes.named? segment).map f := by
    rw [named?, named?, List.find?_map, hname]
  unfold child?
  rw [hnamed]
  cases nodes.named? segment with
  | some n => rfl
  | none =>
    dsimp only [Option.map_none]
    split
    · cases Whole.read segment.toList with
      | error fault => rfl
      | ok index => exact congrArg Except.ok List.getElem?_map
    · rfl

/-- What is written at the end of a way is written along the same way. -/
theorem Leads.update (f : Forest → Forest) (h : Leads nodes segments scope siblings) :
    Leads (update f scope nodes) segments scope (f siblings) := by
  induction h with
  | here nodes => exact .here (f nodes)
  | @inside nodes children siblings segment rest n scope hchild hchildren _ ih =>
    -- The container is built anew and keeps its name and its place, so the segment still leads to it.
    have hentered : child? (Forest.update f (n.id :: scope) nodes) segment true =
        .ok (some (n.withChildren (Forest.update f scope children))) := by
      rw [update_cons, child?_map fun m ↦ (enter_continues f n.id scope m).2, hchild,
        ← enter_self scope hchildren]
      rfl
    exact Leads.inside (n := n.withChildren _) hentered (children?_withChildren hchildren) ih

/-- What is written within a scope is read there. -/
theorem within?_update (f : Forest → Forest) (h : nodes.within? scope = some siblings) :
    (update f scope nodes).within? scope = some (f siblings) := by
  induction scope generalizing nodes with
  | nil =>
    obtain rfl := Option.some.inj h
    rfl
  | cons id rest ih =>
    rw [within?] at h
    obtain ⟨inner, hinner, hrest⟩ := Option.bind_eq_some_iff.1 h
    obtain ⟨n, hn, hchildren⟩ := Option.bind_eq_some_iff.1 hinner
    obtain rfl := id_of_withId? hn
    rw [update_cons, within?, withId?_map fun m ↦ (enter_continues f n.id rest m).1, hn,
      Option.map_some, enter_self rest hchildren, Option.bind_some,
      children?_withChildren hchildren, Option.bind_some]
    exact ih hrest

/-! ## Lookup and navigation -/

/-- A segment that is no longer than a position may be, if it consists of digits. -/
def IsShortPosition (segment : List Char) : Prop :=
  segment.all Text.isDigit = true → segment.length ≤ TooManyDigits.limit

theorem exists_child? (nodes : Forest) (h : IsShortPosition segment.toList) :
    ∃ found, nodes.child? segment true = .ok found := by
  cases hchild : nodes.child? segment true with
  | ok found => exact ⟨found, rfl⟩
  | error fault =>
    have hoverrun := child?_error_iff.1 ⟨fault, hchild⟩
    exact absurd hoverrun.long (Nat.not_lt_of_le (h hoverrun.digits))

theorem exists_follow? (nodes : Forest) (h : ∀ segment ∈ head :: tail, IsShortPosition segment.toList) :
    ∃ found, nodes.follow? head tail = .ok found := by
  induction tail generalizing nodes head with
  | nil => exact exists_child? nodes (h head List.mem_cons_self)
  | cons next rest ih =>
    rw [List.forall_mem_cons] at h
    obtain ⟨found, hchild⟩ := exists_child? nodes h.1
    rw [follow?, hchild]
    dsimp only [bind, Except.bind]
    cases found.bind Node.children? with
    | none => exact ⟨none, rfl⟩
    | some children => exact ih children h.2

theorem exists_scopeAlong? (nodes : Forest)
    (h : ∀ segment ∈ segments, IsShortPosition segment.toList) :
    ∃ scope, nodes.scopeAlong? segments = .ok scope := by
  induction segments generalizing nodes with
  | nil => exact ⟨some [], rfl⟩
  | cons segment rest ih =>
    rw [List.forall_mem_cons] at h
    obtain ⟨found, hchild⟩ := exists_child? nodes h.1
    rw [scopeAlong?, hchild]
    cases found with
    | none => exact ⟨none, rfl⟩
    | some n =>
      simp only [bind, Except.bind]
      cases n.children? with
      | none => exact ⟨none, rfl⟩
      | some children =>
        obtain ⟨scope, hscope⟩ := ih children h.2
        simp only [hscope]
        exact ⟨_, rfl⟩

/-- The container that a way leads to is found by its scope, and by the path. -/
theorem Leads.exists_container {among : String → Prop}
    (h : Leads root (segments ++ [segment]) scope children) (hroot : root.IsApart among) :
    ∃ n, root.container? scope = some n ∧ n.children? = some children ∧
      ∀ head tail, head :: tail = segments ++ [segment] → root.follow? head tail = .ok (some n) := by
  obtain ⟨init, siblings, n, hleads, hchild, hchildren, rfl⟩ := h.exists_last
  obtain ⟨hwithin, hsiblings⟩ := hleads.within?_eq hroot
  obtain ⟨before, after, rfl, hbefore, -⟩ := hsiblings.exists_insert (mem_of_child? hchild)
  refine ⟨n, ?_, hchildren, fun head tail hsegments ↦ ?_⟩
  · exact container?_append_singleton hwithin (withId?_insert after hbefore) hchildren
  · exact (follow?_append_singleton_iff hsegments).2 ⟨init, _, hleads, hchild⟩

/-- A way leads through all segments just where the path leads to a container. -/
theorem exists_leads_iff (h : head :: tail = segments ++ [segment]) :
    (∃ scope children, Leads nodes (segments ++ [segment]) scope children) ↔
      ∃ n, nodes.follow? head tail = .ok (some n) ∧ n.isContainer = true := by
  constructor
  · rintro ⟨scope, children, hleads⟩
    obtain ⟨init, siblings, n, hinit, hchild, hchildren, -⟩ := hleads.exists_last
    refine ⟨n, (follow?_append_singleton_iff h).2 ⟨init, siblings, hinit, hchild⟩, ?_⟩
    rw [Node.isContainer, hchildren]
    rfl
  · rintro ⟨n, hfollow, hcontainer⟩
    obtain ⟨init, siblings, hinit, hchild⟩ := (follow?_append_singleton_iff h).1 hfollow
    obtain ⟨children, hchildren⟩ := Option.isSome_iff_exists.1 hcontainer
    exact ⟨init ++ [n.id], children, hinit.snoc hchild hchildren⟩

section Segments

variable {found : Option Node} (hfound : root.follow? head tail = .ok found)

include hfound

/-- There is a scope just where a container is looked up. -/
theorem isSome_scope_iff {result : Option Scope}
    (hscope : root.scopeAlong? (head :: tail) = .ok result) :
    result.isSome = true ↔ ∃ n, found = some n ∧ n.isContainer = true := by
  have hsegments := (List.dropLast_append_getLast (List.cons_ne_nil head tail)).symm
  have hways := @exists_leads_iff root _ _ head tail hsegments
  rw [hfound, ← hsegments] at hways
  rw [Option.isSome_iff_exists]
  constructor
  · rintro ⟨scope, rfl⟩
    obtain ⟨children, hleads⟩ := scopeAlong?_eq_some_iff.1 hscope
    obtain ⟨n, hn, hcontainer⟩ := hways.1 ⟨scope, children, hleads⟩
    exact ⟨n, Except.ok.inj hn, hcontainer⟩
  · rintro ⟨n, hn, hcontainer⟩
    obtain ⟨scope, hleads⟩ := hways.2 ⟨n, congrArg Except.ok hn, hcontainer⟩
    rw [scopeAlong?_eq_some_iff.2 hleads] at hscope
    exact ⟨scope, (Except.ok.inj hscope).symm⟩

/-- The scope leads to the container that is looked up. -/
theorem container?_scope {among : String → Prop} (hroot : root.IsApart among)
    (hscope : root.scopeAlong? (head :: tail) = .ok (some scope)) :
    root.container? scope = found ∧ found.bind Node.children? = some (root.within scope) := by
  have hsegments := (List.dropLast_append_getLast (List.cons_ne_nil head tail)).symm
  obtain ⟨children, hleads⟩ := scopeAlong?_eq_some_iff.1 hscope
  have hwithin := (hleads.within?_eq hroot).1
  rw [hsegments] at hleads
  obtain ⟨n, hcontainer, hchildren, hfollow⟩ := hleads.exists_container hroot
  rw [hfollow head tail hsegments] at hfound
  obtain rfl := Except.ok.inj hfound
  refine ⟨hcontainer, ?_⟩
  rw [Option.bind_some, hchildren, within_eq_getD, hwithin, Option.getD_some]

end Segments

/-- A node at a path is one of those within the scope of the container, whose path stands before the
last point. -/
theorem exists_scope_of_lookup? {among : String → Prop} {path : String} (hroot : root.IsApart among)
    (h : root.lookup? path = .ok (some n)) :
    ∃ scope, root.scopeOf? (Path.containerText path) = .ok (some scope) ∧
      n ∈ root.within scope := by
  cases hparse : Path.parse path with
  | error fault =>
    rw [lookup?, hparse] at h
    cases Except.ok.inj h
  | ok p =>
    have hlast := (List.dropLast_append_getLast (List.cons_ne_nil p.head p.tail)).symm
    rw [lookup?, hparse] at h
    obtain ⟨scope, siblings, hleads, hchild⟩ := (follow?_append_singleton_iff hlast).1 h
    refine ⟨scope, ?_, ?_⟩
    · rw [scopeOf?_of_some root (Path.segmentsTo?_containerText hparse hlast)]
      exact scopeAlong?_eq_some_iff.2 ⟨siblings, hleads⟩
    · rw [within_eq_getD, (hleads.within?_eq hroot).1]
      exact mem_of_child? hchild

/-- What a path leads to, as it is looked up and as it is navigated to. -/
structure Agree (root : Forest) (path : String) (found : Option Node) (scope : Option Scope) :
    Prop where
  lookup : root.lookup? path = .ok found
  navigate : root.scopeOf? path = .ok scope
  isSome_iff : scope.isSome = true ↔ path = "" ∨ ∃ n, found = some n ∧ n.isContainer = true
  length : path ≠ "" → ∀ ids, scope = some ids →
    ids.length = (Text.fieldList '.' path.toList).length
  container : path ≠ "" → ∀ ids, scope = some ids → root.container? ids = found
  within : path ≠ "" → ∀ ids, scope = some ids →
    found.bind Node.children? = some (root.within ids)

/-- The empty path is that of the root, and no lookup finds it. -/
theorem agree_empty (root : Forest) : Agree root "" none (some []) where
  lookup := rfl
  navigate := rfl
  isSome_iff := iff_of_true rfl (.inl rfl)
  length h := absurd rfl h
  container h := absurd rfl h
  within h := absurd rfl h

theorem agree_of_error {path : String} {fault : PathFault} (root : Forest) (hempty : path ≠ "")
    (hparse : Path.parse path = .error fault) : Agree root path none none where
  lookup := by rw [lookup?, hparse]
  navigate := scopeOf?_of_none root (Path.segmentsTo?_of_error hempty hparse)
  isSome_iff := by simp [hempty]
  length _ _ h := by cases h
  container _ _ h := by cases h
  within _ _ h := by cases h

/-- A path whose segments are no longer than positions may be, if they consist of digits. -/
def HasShortPositions (path : String) : Prop :=
  ∀ segment ∈ Text.fieldList '.' path.toList, IsShortPosition segment

theorem HasShortPositions.forall_mem {path : String} {p : Path} (h : HasShortPositions path)
    (hparse : Path.parse path = .ok p) :
    ∀ segment ∈ p.head :: p.tail, IsShortPosition segment.toList := by
  intro segment hsegment
  change segment ∈ p.segments at hsegment
  rw [(Path.parse_eq_ok_iff.1 hparse).2] at hsegment
  obtain ⟨field, hfield, rfl⟩ := List.mem_map.1 hsegment
  rw [String.toList_ofList]
  exact h field hfield

theorem HasShortPositions.exists_lookup? {path : String} (h : HasShortPositions path)
    (root : Forest) : ∃ found, root.lookup? path = .ok found := by
  unfold lookup?
  cases hparse : Path.parse path with
  | error fault => exact ⟨none, rfl⟩
  | ok p => exact exists_follow? root (h.forall_mem hparse)

theorem agree_of_parse {path : String} {p : Path} (hroot : root.IsApart fun _ ↦ True)
    (hempty : path ≠ "") (hparse : Path.parse path = .ok p) (hpath : HasShortPositions path) :
    ∃ found scope, Agree root path found scope := by
  have hshort := hpath.forall_mem hparse
  obtain ⟨found, hfound⟩ := exists_follow? root hshort
  obtain ⟨scope, hscope⟩ := exists_scopeAlong? root hshort
  refine ⟨found, scope, ?_, ?_, ?_, fun _ ids hids ↦ ?_, fun _ ids hids ↦ ?_, fun _ ids hids ↦ ?_⟩
  · rw [lookup?, hparse]
    exact hfound
  · rw [scopeOf?_of_some root (Path.segmentsTo?_of_parse hempty hparse)]
    exact hscope
  · rw [isSome_scope_iff hfound hscope]
    exact (or_iff_right hempty).symm
  · subst hids
    obtain ⟨children, hleads⟩ := scopeAlong?_eq_some_iff.1 hscope
    have hsegments := congrArg List.length (Path.parse_eq_ok_iff.1 hparse).2
    rw [List.length_map] at hsegments
    exact hleads.length_eq.trans hsegments
  · subst hids
    exact (container?_scope hfound hroot hscope).1
  · subst hids
    exact (container?_scope hfound hroot hscope).2

/-- Navigation and lookup name the same container, however its segments were matched. -/
theorem exists_agree {path : String} (hroot : root.IsApart fun _ ↦ True)
    (hpath : HasShortPositions path) : ∃ found scope, Agree root path found scope := by
  by_cases hempty : path = ""
  · subst hempty
    exact ⟨none, some [], agree_empty root⟩
  · cases hparse : Path.parse path with
    | error fault => exact ⟨none, none, agree_of_error root hempty hparse⟩
    | ok p => exact agree_of_parse hroot hempty hparse hpath

/-- A list from which the first child has been removed, so that names and positions part. -/
def stale : Forest := [
  ⟨"i", "l", .branch .list [
    ⟨"j", "1", .branch .dictionary [⟨"k", "x", .leaf (.boolean true)⟩]⟩,
    ⟨"m", "2", .leaf (.text "t")⟩]⟩]

theorem isApart_stale : stale.IsApart fun _ ↦ True :=
  isApart_of_nodup stale (by decide) fun _ _ ↦ trivial

theorem exists_agree_stale : (stale.IsApart fun _ ↦ True) ∧ HasShortPositions "l.0" ∧
    ∃ found scope, Agree stale "l.0" found scope := by
  have hshort : HasShortPositions "l.0" := by
    unfold HasShortPositions IsShortPosition
    decide
  exact ⟨isApart_stale, hshort, exists_agree isApart_stale hshort⟩

example : stale.scopeOf? "l.0" = .ok (some ["i", "j"]) := by
  decide

end Forest

end KeyTree
