import KeyTree.Proofs.Session.Adding
import KeyTree.Proofs.Tree.Ways

/-!
# Addressing what has been added

What is added within a container is looked up under its name below the path of the container. In a
list the name is a position at the time of the addition, and an older item may still have it from
another time: then the older item is found, and no path leads to the new one.
-/

namespace KeyTree

/-! ## Paths below a container -/

namespace Path

/-- The path of a child. The empty path is that of the root. -/
def below (path name : String) : String := if path.isEmpty then name else path ++ "." ++ name

/-- The path of a child goes one segment further than that of its container. -/
theorem exists_parse_below {path name : String} {segments : List String}
    (h : segmentsTo? path = some segments) (hname : isSegment name.toList = true) :
    ∃ p, parse (below path name) = .ok p ∧ p.head :: p.tail = segments ++ [name] := by
  unfold segmentsTo? at h
  split at h
  case isTrue hempty =>
    obtain rfl := Option.some.inj h
    rw [below, if_pos hempty]
    exact ⟨_, parse_segment hname, rfl⟩
  case isFalse hempty =>
    cases hp : parse path with
    | error fault =>
      rw [hp] at h
      cases h
    | ok p =>
      rw [hp] at h
      obtain rfl := Option.some.inj h
      rw [below, if_neg hempty]
      refine ⟨⟨p.head, p.tail ++ [name]⟩, ?_, rfl⟩
      exact parse_append_eq_ok_iff.2 ⟨p, ⟨name, []⟩, hp, parse_segment hname, rfl⟩

end Path

namespace Forest

variable {root siblings : Forest} {scope : Scope} {segments : List String} {n : Node}

/-- The siblings at the end of a path: the root itself, or the children of a container. -/
def siblingsAt? (root : Forest) (path : String) : Option Forest :=
  if path.isEmpty then some root else (root.lookup? path).toOption.join.bind Node.children?

/-- Siblings are read where the way to them leads. -/
theorem siblingsAt?_of_leads {path : String} (hsegments : Path.segmentsTo? path = some segments)
    (h : Leads root segments scope siblings) : root.siblingsAt? path = some siblings := by
  unfold Path.segmentsTo? at hsegments
  unfold siblingsAt?
  split at hsegments
  case isTrue hempty =>
    obtain rfl := Option.some.inj hsegments
    cases h with
    | here => exact if_pos hempty
  case isFalse hempty =>
    rw [if_neg hempty]
    cases hparse : Path.parse path with
    | error fault =>
      rw [hparse] at hsegments
      cases hsegments
    | ok p =>
      rw [hparse] at hsegments
      obtain rfl := Option.some.inj hsegments
      have hlast := (List.dropLast_append_getLast (List.cons_ne_nil p.head p.tail)).symm
      change Leads root (p.head :: p.tail) scope siblings at h
      rw [hlast] at h
      obtain ⟨init, before, n, hinit, hchild, hchildren, -⟩ := h.exists_last
      have hfollow := (follow?_append_singleton_iff hlast).2 ⟨init, before, hinit, hchild⟩
      rw [lookup?, hparse]
      dsimp only
      rw [hfollow]
      exact hchildren

/-- What a name stands for at the end of a way is looked up below the path. -/
theorem lookup?_below {path name : String} (hsegments : Path.segmentsTo? path = some segments)
    (hname : Path.isSegment name.toList = true) (h : Leads root segments scope siblings)
    (hn : siblings.named? name = some n) : root.lookup? (Path.below path name) = .ok (some n) := by
  obtain ⟨p, hparse, hp⟩ := Path.exists_parse_below hsegments hname
  have hchild : siblings.child? name true = .ok (some n) := by
    rw [child?, hn]
  rw [lookup?, hparse]
  exact (follow?_append_singleton_iff hp).2 ⟨scope, siblings, h, hchild⟩

/-- Of an older item and a new one of the same name, the older one is found. -/
theorem named?_append_singleton (siblings : Forest) (n : Node) :
    named? (siblings ++ [n]) n.name = some ((siblings.named? n.name).getD n) := by
  have hself : [n].find? (fun m ↦ m.name == n.name) = some n :=
    List.find?_cons_of_pos (beq_self_eq_true n.name)
  unfold named?
  rw [List.find?_append, hself]
  cases siblings.find? (fun m ↦ m.name == n.name) <;> rfl

theorem mem_putNamed {m : Node} (h : m ∈ putNamed n siblings) : m = n ∨ m ∈ siblings := by
  have hplace := takesPlace_putNamed n siblings
  generalize putNamed n siblings = changed at h hplace
  cases hplace with
  | @first before after old =>
    rcases List.mem_append.1 h with h | h
    · exact .inr (List.mem_append_left _ h)
    · exact (List.mem_cons.1 h).imp_right fun h ↦
        List.mem_append_right before (List.mem_cons_of_mem old h)
  | last =>
    rcases List.mem_append.1 h with h | h
    · exact .inr h
    · exact .inl (List.mem_singleton.1 h)

/-- The change that puts a node into a list, or among children with names. -/
def inserting (inList : Bool) (n : Node) (nodes : Forest) : Forest :=
  if inList then nodes ++ [n] else putNamed n nodes

theorem mem_inserting {inList : Bool} {m : Node} (h : m ∈ inserting inList n siblings) :
    m = n ∨ m ∈ siblings := by
  unfold inserting at h
  split at h
  · rw [List.mem_append, List.mem_singleton] at h
    exact h.symm
  · exact mem_putNamed h

/-- What is put among siblings is found under its name, unless it is put behind an older item. -/
theorem named?_inserting (inList : Bool) (n : Node) (siblings : Forest) :
    named? (inserting inList n siblings) n.name =
      some (if inList then (siblings.named? n.name).getD n else n) := by
  cases inList with
  | false => exact named?_putNamed n siblings
  | true => exact named?_append_singleton siblings n

theorem exists_inserting_of_add {supply : Supply} {new : Forest} {name kindName : String}
    {value : Raw} (h : root.add supply name kindName value scope = .ok new) :
    ∃ n, new = update (inserting (root.isListAt scope) n) scope root := by
  obtain ⟨payload, -, ⟨hlist, rfl⟩ | ⟨hlist, -, rfl⟩⟩ := exists_of_add h
  · rw [hlist]
    exact ⟨_, rfl⟩
  · rw [hlist]
    exact ⟨_, rfl⟩

end Forest

namespace Session

variable {s t u : Session} {path name kindName : String} {value : Raw} {n : Node}

/-- A node is given back if the scope is not dead, and it is the first one within the scope of the new
tree whose identity was not there before. -/
theorem exists_of_add_eq_ok (h : t.add name kindName value = (.ok n, u)) :
    (∃ siblings, t.root.within? t.scope = some siblings) ∧
      ∃ root, t.root.add t.supply name kindName value t.scope = .ok root ∧
        (root.within t.scope).find? (fun m ↦ !(t.nodes.map (·.id)).contains m.id) = some n ∧
        u.root = root := by
  unfold add at h
  split at h
  case isTrue => cases (Prod.mk.inj h).1
  case isFalse hdead =>
    constructor
    · rw [← Option.ne_none_iff_exists']
      intro hnone
      obtain ⟨hscope, hcontainer⟩ := Forest.within?_eq_none_iff.1 hnone
      have hcontainer : t.container? = none := hcontainer
      apply hdead
      rw [hcontainer, List.isEmpty_eq_false_iff.2 hscope]
      rfl
    · cases hadd : t.root.boundedAdd t.supply name kindName value t.scope with
      | error fault =>
        rw [hadd] at h
        cases (Prod.mk.inj h).1
      | ok root =>
        rw [hadd] at h
        dsimp only at h
        split at h
        case h_1 => cases (Prod.mk.inj h).1
        case h_2 m hfind =>
          obtain ⟨hdone, rfl⟩ := Prod.mk.inj h
          obtain ⟨-, -, rfl⟩ := exists_of_map_eq_ok hdone
          exact ⟨root, (Forest.add_of_boundedAdd hadd).2, hfind,
            (commit_spec { t with supply := t.supply.skip 1 } root).1⟩

/-- The node that an addition gives back is the one that it has put into the tree. -/
theorem root_of_add (h : t.add name kindName value = (.ok n, u)) :
    u.root = Forest.update (Forest.inserting (t.root.isListAt t.scope) n) t.scope t.root := by
  obtain ⟨⟨siblings, hsiblings⟩, root, hadd, hfind, hroot⟩ := exists_of_add_eq_ok h
  obtain ⟨new, rfl⟩ := Forest.exists_inserting_of_add hadd
  have hread : t.nodes = siblings := by
    rw [nodes, Forest.within_eq_getD, hsiblings, Option.getD_some]
  rw [Forest.within_eq_getD, Forest.within?_update _ hsiblings, Option.getD_some, hread] at hfind
  -- The node that is given back is no older sibling, as its identity is new among them.
  have hold : n.id ∉ siblings.map (·.id) := by
    simpa using List.find?_some hfind
  have hn : n = new := by
    apply (Forest.mem_inserting (List.mem_of_find?_eq_some hfind)).resolve_right
    intro hmem
    exact hold (List.mem_map_of_mem hmem)
  rw [hroot, hn]

/--
What has been added is looked up below the path of its container, under its own name. In a list an
older item of this name is found in its place.
-/
theorem get?_added (hnavigate : s.navigate path = (.ok (), t))
    (hadd : t.add name kindName value = (.ok n, u)) (hname : Path.isSegment n.name.toList = true) :
    ∃ siblings, t.root.siblingsAt? path = some siblings ∧
      u.get? (Path.below path n.name) = .ok (some (
        if t.root.isListAt t.scope then (siblings.named? n.name).getD n else n)) := by
  have hroot := root_of_add hadd
  unfold navigate at hnavigate
  split at hnavigate
  case h_1 => cases (Prod.mk.inj hnavigate).1
  case h_2 => cases (Prod.mk.inj hnavigate).1
  case h_3 scope hscope =>
    obtain rfl := (Prod.mk.inj hnavigate).2
    obtain ⟨segments, siblings, hsegments, hleads⟩ := Forest.exists_leads_of_scopeOf? hscope
    refine ⟨siblings, Forest.siblingsAt?_of_leads hsegments hleads, ?_⟩
    have hafter := hleads.update (Forest.inserting (s.root.isListAt scope) n)
    have hnamed := Forest.named?_inserting (s.root.isListAt scope) n siblings
    have hlookup := Forest.lookup?_below hsegments hname hafter hnamed
    rw [get?, hroot, hlookup]
    rfl

/-- A session on the tree that a user starts with, in whose list the first of two items has been
removed. -/
def shifted : Session :=
  (start (.standard "/home/user") (Supply.labelAll ⟨0⟩ Forest.sample).1 .missing false
    (Supply.labelAll ⟨0⟩ Forest.sample).2).run
      [.set "l" .null "list", .navigate "l", .add "" "text" .null, .add "" "text" .null,
        .remove (Supply.idOf 8)]

/-- The third item of the list, which is the second one now. -/
def third : Node := ⟨Supply.idOf 10, "1", .leaf (.text "")⟩

theorem get?_added_shifted :
    shifted.navigate "l" = (.ok (), (shifted.navigate "l").2) ∧
      (shifted.navigate "l").2.add "" "text" .null =
        (.ok third, ((shifted.navigate "l").2.add "" "text" .null).2) ∧
      Path.isSegment third.name.toList = true ∧
      ∃ siblings, (shifted.navigate "l").2.root.siblingsAt? "l" = some siblings ∧
        ((shifted.navigate "l").2.add "" "text" .null).2.get? (Path.below "l" third.name) =
          .ok (some (if (shifted.navigate "l").2.root.isListAt (shifted.navigate "l").2.scope
            then (siblings.named? third.name).getD third else third)) := by
  have hnavigate : shifted.navigate "l" = (.ok (), (shifted.navigate "l").2) := rfl
  have hadd : (shifted.navigate "l").2.add "" "text" .null =
      (.ok third, ((shifted.navigate "l").2.add "" "text" .null).2) := rfl
  have hname : Path.isSegment third.name.toList = true := by decide
  exact ⟨hnavigate, hadd, hname, get?_added hnavigate hadd hname⟩

/-- The item that has been added is not found under its name: the one before it has this name too. -/
theorem get?_added_ne :
    (shifted.navigate "l").1 = .ok () ∧
      ((shifted.navigate "l").2.add "" "text" .null).1 = .ok third ∧
      ((shifted.navigate "l").2.add "" "text" .null).2.get? (Path.below "l" third.name) ≠
        .ok (some third) := by
  have hfound : ((shifted.navigate "l").2.add "" "text" .null).2.get? (Path.below "l" third.name) =
      .ok (some ⟨Supply.idOf 9, "1", .leaf (.text "")⟩) := rfl
  refine ⟨rfl, rfl, fun h ↦ ?_⟩
  rw [hfound] at h
  have hid : Supply.idOf 9 = Supply.idOf 10 := congrArg Node.id (Option.some.inj (Except.ok.inj h))
  cases Supply.idOf_injective hid

end Session

end KeyTree
