import KeyTree.Document.Record
import KeyTree.Proofs.Tree.Kept

/-!
# Where a scope leads

Reading follows a scope to the first sibling of each identity, and gives up if that is a leaf. Writing
goes into every container of each identity. Both mean the same siblings just where writing reaches no
more than reading does, and then an edit within a scope exchanges these siblings and nothing else.
Siblings of different identities are such a place, whatever the scope.
-/

namespace KeyTree.Forest

variable {scope : Scope} {root new nodes children changed : Forest}

/-! ## Reading -/

/-- The siblings within a scope, if it leads to any. -/
def within? (nodes : Forest) : Scope → Option Forest
  | [] => some nodes
  | id :: rest => ((nodes.withId? id).bind Node.children?).bind fun children ↦ within? children rest

/-- A scope leads to the children of its container. -/
theorem within?_eq_bind_children? (hscope : scope ≠ []) :
    nodes.within? scope = (nodes.container? scope).bind Node.children? := by
  induction scope generalizing nodes with
  | nil => exact absurd rfl hscope
  | cons id rest ih =>
    rw [within?, container?]
    cases nodes.withId? id with
    | none => rfl
    | some n =>
      cases hchildren : n.children? with
      | none => simp [hchildren]
      | some children =>
        cases rest with
        | nil => simp [hchildren, within?]
        | cons next rest => simpa [hchildren] using ih (List.cons_ne_nil next rest)

theorem isContainer_of_container? {n : Node} (h : nodes.container? scope = some n) :
    n.children?.isSome := by
  induction scope generalizing nodes with
  | nil => cases h
  | cons id rest ih =>
    rw [container?] at h
    cases hid : nodes.withId? id with
    | none =>
      rw [hid] at h
      cases h
    | some m =>
      rw [hid] at h
      cases hchildren : m.children? with
      | none =>
        simp only [hchildren] at h
        cases h
      | some children =>
        simp only [hchildren] at h
        cases rest with
        | nil =>
          obtain rfl := Option.some.inj h
          rw [hchildren]
          rfl
        | cons next rest => exact ih h

theorem within?_eq_none_iff :
    nodes.within? scope = none ↔ scope ≠ [] ∧ nodes.container? scope = none := by
  by_cases hscope : scope = []
  · subst hscope
    exact iff_of_false (Option.some_ne_none nodes) fun h ↦ h.1 rfl
  · rw [within?_eq_bind_children? hscope]
    cases hn : nodes.container? scope with
    | none => exact iff_of_true rfl ⟨hscope, rfl⟩
    | some n =>
      refine iff_of_false (fun h ↦ ?_) fun h ↦ Option.some_ne_none n h.2
      have hsome := isContainer_of_container? hn
      rw [Option.bind_some] at h
      rw [h] at hsome
      cases hsome

theorem within_eq_getD (nodes : Forest) (scope : Scope) :
    nodes.within scope = (nodes.within? scope).getD [] := by
  cases scope with
  | nil => rfl
  | cons id rest =>
    rw [within?_eq_bind_children? (List.cons_ne_nil id rest)]
    rfl

/-! ## Writing -/

/-- All siblings that writing within a scope reaches. -/
def reached (nodes : Forest) : Scope → List Forest
  | [] => [nodes]
  | id :: rest => nodes.flatMap fun n ↦
    match n.children? with
    | some children => if n.id == id then reached children rest else []
    | none => []

/-- What writing reaches through one sibling. -/
def reachedIn (id : String) (rest : Scope) (n : Node) : List Forest :=
  match n.children? with
  | some children => if n.id == id then reached children rest else []
  | none => []

theorem reached_cons (nodes : Forest) (id : String) (rest : Scope) :
    nodes.reached (id :: rest) = nodes.flatMap (reachedIn id rest) := rfl

theorem reachedIn_of_ne {id : String} {n : Node} (rest : Scope) (h : n.id ≠ id) :
    reachedIn id rest n = [] := by
  unfold reachedIn
  split
  · exact if_neg (by rwa [beq_iff_eq])
  · rfl

theorem reachedIn_self {n : Node} (rest : Scope) (h : n.children? = some children) :
    reachedIn n.id rest n = children.reached rest := by
  unfold reachedIn
  rw [h]
  exact if_pos (beq_self_eq_true _)

theorem reachedIn_leaf {id : String} {n : Node} (rest : Scope) (h : n.children? = none) :
    reachedIn id rest n = [] := by
  unfold reachedIn
  rw [h]

theorem enter_of_ne {f : Forest → Forest} {id : String} {n : Node} (rest : Scope) (h : n.id ≠ id) :
    enter f id rest n = n := by
  unfold enter
  split
  · exact if_neg (by rwa [beq_iff_eq])
  · rfl

theorem enter_self {f : Forest → Forest} {n : Node} (rest : Scope)
    (h : n.children? = some children) :
    enter f n.id rest n = n.withChildren (update f rest children) := by
  unfold enter
  rw [h]
  exact if_pos (beq_self_eq_true _)

theorem enter_leaf {f : Forest → Forest} {id : String} {n : Node} (rest : Scope)
    (h : n.children? = none) : enter f id rest n = n := by
  unfold enter
  rw [h]

/-- Siblings in front of the first of an identity are not reached. -/
theorem reached_append {before after : List Node} {n : Node} (rest : Scope)
    (hbefore : ∀ m ∈ before, m.id ≠ n.id) (hchildren : n.children? = some children) :
    reached (before ++ n :: after) (n.id :: rest) =
      children.reached rest ++ reached after (n.id :: rest) := by
  have hnone : before.flatMap (reachedIn n.id rest) = [] :=
    List.flatMap_eq_nil_iff.2 fun m hm ↦ reachedIn_of_ne rest (hbefore m hm)
  rw [reached_cons, List.flatMap_append, hnone, List.nil_append, List.flatMap_cons,
    reachedIn_self rest hchildren, reached_cons]

/-- Writing changes all the siblings that it reaches. -/
theorem reached_update (f : Forest → Forest) (nodes : Forest) (scope : Scope) :
    (update f scope nodes).reached scope = (nodes.reached scope).map f := by
  induction scope generalizing nodes with
  | nil => rfl
  | cons id rest ih =>
    have hnode (n : Node) : reachedIn id rest (enter f id rest n) = (reachedIn id rest n).map f := by
      cases hchildren : n.children? with
      | none => rw [enter_leaf rest hchildren, reachedIn_leaf rest hchildren, List.map_nil]
      | some children =>
        by_cases hid : n.id = id
        · subst hid
          have hentered := reachedIn_self rest (@children?_withChildren n _ (update f rest children)
            hchildren)
          rw [enter_self rest hchildren, reachedIn_self rest hchildren, ← ih]
          exact hentered
        · rw [enter_of_ne rest hid, reachedIn_of_ne rest hid, List.map_nil]
    rw [update_cons, reached_cons, reached_cons, List.flatMap_map, List.map_flatMap]
    exact congrArg (nodes.flatMap ·) (funext hnode)

/-- Writing that reaches nothing changes nothing. -/
theorem update_eq_self {f : Forest → Forest} (h : nodes.reached scope = []) :
    update f scope nodes = nodes := by
  induction scope generalizing nodes with
  | nil => cases h
  | cons id rest ih =>
    rw [reached_cons, List.flatMap_eq_nil_iff] at h
    rw [update_cons]
    have hself : ∀ n ∈ nodes, enter f id rest n = n := by
      intro n hn
      cases hchildren : n.children? with
      | none => exact enter_leaf rest hchildren
      | some children =>
        by_cases hid : n.id = id
        · subst hid
          have hreached := h n hn
          rw [reachedIn_self rest hchildren] at hreached
          rw [enter_self rest hchildren, ih hreached, withChildren_eq_self hchildren]
        · exact enter_of_ne rest hid
    exact (List.map_congr_left hself).trans (List.map_id nodes)

/-! ## Reading and writing -/

/-- The first sibling of an identity, and what a scope leads to from there. -/
theorem exists_of_within?_cons {id : String} {rest : Scope}
    (h : nodes.within? (id :: rest) = some children) :
    ∃ before n after inner, nodes = before ++ n :: after ∧ n.id = id ∧
      (∀ m ∈ before, m.id ≠ n.id) ∧ n.children? = some inner ∧
      inner.within? rest = some children := by
  rw [within?] at h
  obtain ⟨inner, hinner, hrest⟩ := Option.bind_eq_some_iff.1 h
  obtain ⟨n, hn, hchildren⟩ := Option.bind_eq_some_iff.1 hinner
  unfold withId? at hn
  obtain ⟨hid, before, after, rfl, hbefore⟩ := List.find?_eq_some_iff_append.1 hn
  rw [beq_iff_eq] at hid
  refine ⟨before, n, after, inner, rfl, hid, fun m hm heq ↦ ?_, hchildren, hrest⟩
  have hne := hbefore m hm
  rw [heq, hid, beq_self_eq_true] at hne
  cases hne

/-- Writing reaches what reading finds, and reaches it first. -/
theorem reached_of_within? (h : nodes.within? scope = some children) :
    ∃ more, nodes.reached scope = children :: more := by
  induction scope generalizing nodes with
  | nil =>
    obtain rfl := Option.some.inj h
    exact ⟨[], rfl⟩
  | cons id rest ih =>
    obtain ⟨before, n, after, inner, rfl, rfl, hbefore, hinner, hrest⟩ := exists_of_within?_cons h
    obtain ⟨more, hmore⟩ := ih hrest
    rw [reached_append rest hbefore hinner, hmore]
    exact ⟨_, rfl⟩

/-- Two trees that differ in the siblings within a scope and in nothing else. The scope goes through
the first sibling of each identity. -/
inductive ReplacesWithin (children changed : Forest) : Scope → Forest → Forest → Prop
  | here : ReplacesWithin children changed [] children changed
  | inside {rest : Scope} {before after : List Node} {n : Node} {inner inner' : Forest}
      (hbefore : ∀ m ∈ before, m.id ≠ n.id) (hinner : n.children? = some inner)
      (h : ReplacesWithin children changed rest inner inner') :
      ReplacesWithin children changed (n.id :: rest) (before ++ n :: after)
        (before ++ n.withChildren inner' :: after)

theorem replacesWithin_refl (h : nodes.within? scope = some children) :
    ReplacesWithin children children scope nodes nodes := by
  induction scope generalizing nodes with
  | nil =>
    obtain rfl := Option.some.inj h
    exact .here
  | cons id rest ih =>
    obtain ⟨before, n, after, inner, rfl, rfl, hbefore, hinner, hrest⟩ := exists_of_within?_cons h
    have hinside := @ReplacesWithin.inside _ _ rest before after n inner inner hbefore hinner
      (ih hrest)
    rwa [withChildren_eq_self hinner] at hinside

/-- Writing that reaches nothing behind the first sibling of an identity changes that sibling. -/
theorem update_insert (f : Forest → Forest) {rest : Scope} {before after : List Node} {n : Node}
    {inner : Forest} (hbefore : ∀ m ∈ before, m.id ≠ n.id) (hinner : n.children? = some inner)
    (hafter : reached after (n.id :: rest) = []) :
    update f (n.id :: rest) (before ++ n :: after) =
      before ++ n.withChildren (update f rest inner) :: after := by
  have hsame : before.map (enter f n.id rest) = before :=
    (List.map_congr_left fun m hm ↦ enter_of_ne rest (hbefore m hm)).trans (List.map_id before)
  have hbehind : after.map (enter f n.id rest) = after := update_eq_self hafter
  rw [update_cons, List.map_append, List.map_cons, hsame, hbehind, enter_self rest hinner]

/-- Writing that reaches one place changes that place and nothing else. -/
theorem replacesWithin_update (f : Forest → Forest) (hwithin : nodes.within? scope = some children)
    (hreached : nodes.reached scope = [children]) :
    ReplacesWithin children (f children) scope nodes (update f scope nodes) := by
  induction scope generalizing nodes with
  | nil =>
    obtain rfl := Option.some.inj hwithin
    exact .here
  | cons id rest ih =>
    obtain ⟨before, n, after, inner, rfl, rfl, hbefore, hinner, hrest⟩ :=
      exists_of_within?_cons hwithin
    obtain ⟨more, hmore⟩ := reached_of_within? hrest
    rw [reached_append rest hbefore hinner, hmore, List.cons_append, List.cons.injEq,
      List.append_eq_nil_iff] at hreached
    obtain ⟨-, rfl, hafter⟩ := hreached
    rw [update_insert f hbefore hinner hafter]
    exact .inside hbefore hinner (ih hrest hmore)

/-- What else writing reaches is the same in both trees. -/
theorem ReplacesWithin.exists_reached (h : ReplacesWithin children changed scope root new) :
    ∃ more, root.reached scope = children :: more ∧ new.reached scope = changed :: more := by
  induction h with
  | here => exact ⟨[], rfl, rfl⟩
  | @inside rest before after n inner inner' hbefore hinner _ ih =>
    obtain ⟨more, hmore, hmore'⟩ := ih
    have hnew := @reached_append inner' before after (n.withChildren inner') rest hbefore
      (children?_withChildren hinner)
    refine ⟨more ++ reached after (n.id :: rest), ?_, ?_⟩
    · rw [reached_append rest hbefore hinner, hmore, List.cons_append]
    · rw [← List.cons_append, ← hmore']
      exact hnew

/-- Nothing but the siblings within a scope differs, and nothing at all if there are none. -/
structure OnlyWithin (scope : Scope) (root new : Forest) : Prop where
  none : scope ≠ [] → root.container? scope = none → new = root
  some : ∀ children, root.within? scope = some children →
    ∃ changed, ReplacesWithin children changed scope root new

theorem OnlyWithin.refl (scope : Scope) (root : Forest) : OnlyWithin scope root root where
  none _ _ := rfl
  some children h := ⟨children, replacesWithin_refl h⟩

theorem onlyWithin_update (f : Forest → Forest)
    (h : root.reached scope = (root.within? scope).toList) :
    OnlyWithin scope root (update f scope root) where
  none hscope hnone := by
    rw [within?_eq_none_iff.2 ⟨hscope, hnone⟩] at h
    exact update_eq_self h
  some children hchildren := by
    rw [hchildren] at h
    exact ⟨f children, replacesWithin_update f hchildren h⟩

/-! ## Edits -/

/-- A change of the siblings within a scope, as far as the limits allow. -/
inductive ScopedEdit where
  | add (name kindName : String) (value : Raw)
  | edit (id : String) (value : Raw)
  | delete (id : String)

def ScopedEdit.apply (edit : ScopedEdit) (supply : Supply) (root : Forest) (scope : Scope) :
    Except ChangeFault Forest :=
  match edit with
  | .add name kindName value => root.boundedAdd supply name kindName value scope
  | .edit id value => root.edit id value scope
  | .delete id => root.boundedDelete id scope

/-- A change that is not refused is one that could not have been. -/
theorem update_of_tryUpdate {f : Nat → Forest → Except ChangeFault Forest} {room : Nat}
    (h : tryUpdate f room scope nodes = .ok changed) :
    changed = update (fun old ↦ (f (room - scope.length - 1) old).toOption.getD old) scope nodes := by
  induction room, scope, nodes using tryUpdate.induct generalizing changed with
  | case1 => cases h
  | case2 room nodes =>
    change f room nodes = .ok changed at h
    rw [update, List.length_nil, Nat.sub_zero, Nat.succ_sub_one, h]
    rfl
  | case3 room id rest nodes ih =>
    rw [tryUpdate_cons] at h
    rw [update_cons, List.length_cons, Nat.succ_sub_succ]
    have hall := forall₂_of_mapM h
    clear h
    induction hall with
    | nil => rfl
    | @cons n m ns ms hm _ ihnodes =>
      have hnode : m =
          enter (fun old ↦ (f (room - rest.length - 1) old).toOption.getD old) id rest n := by
        cases hchildren : n.children? with
        | none =>
          rw [tryEnter, hchildren] at hm
          rw [enter_leaf rest hchildren]
          exact (Except.ok.inj hm).symm
        | some inner =>
          by_cases hid : n.id = id
          · subst hid
            rw [tryEnter, hchildren] at hm
            dsimp only at hm
            rw [if_pos (beq_self_eq_true _)] at hm
            obtain ⟨new, hnew, rfl⟩ := exists_of_map_eq_ok hm
            rw [enter_self rest hchildren, ← ih inner hnew]
          · rw [tryEnter_of_ne hid] at hm
            rw [enter_of_ne rest hid]
            exact (Except.ok.inj hm).symm
      rw [List.map_cons, ← hnode, ihnodes]

/-- A change that is made has room for its way. -/
theorem fits_of_tryUpdate {f : Nat → Forest → Except ChangeFault Forest} {room : Nat}
    (h : tryUpdate f room scope nodes = .ok changed) : fits room scope nodes = true := by
  induction room, scope, nodes using tryUpdate.induct generalizing changed with
  | case1 => cases h
  | case2 => rfl
  | case3 room id rest nodes ih =>
    rw [tryUpdate_cons] at h
    rw [fits, List.all_eq_true]
    intro n hn
    obtain ⟨m, -, hm⟩ := exists_of_mapM_of_mem h hn
    split
    case h_2 => rfl
    case h_1 children hchildren =>
      by_cases hid : n.id = id
      · subst hid
        rw [tryEnter_self hchildren] at hm
        obtain ⟨new, hnew, -⟩ := exists_of_map_eq_ok hm
        rw [ih children hnew, Bool.or_true]
      · rw [Bool.or_eq_true, bne_iff_ne]
        exact .inl hid

/-- Every edit changes all the siblings that writing reaches, and in the same way. -/
theorem ScopedEdit.exists_update {edit : ScopedEdit} {supply : Supply}
    (h : edit.apply supply root scope = .ok new) : ∃ f, new = update f scope root := by
  cases edit with
  | add name kindName value =>
    obtain ⟨_, -, ⟨-, rfl⟩ | ⟨-, -, rfl⟩⟩ := exists_of_add (add_of_boundedAdd h).2
    · exact ⟨_, rfl⟩
    · exact ⟨_, rfl⟩
  | edit id value => exact ⟨_, update_of_tryUpdate h⟩
  | delete id => exact ⟨_, (delete_of_boundedDelete h).2⟩

/-- An edit that is made has room for its way. -/
theorem ScopedEdit.fits_of_apply {edit : ScopedEdit} {supply : Supply}
    (h : edit.apply supply root scope = .ok new) : fits callLimit scope root = true := by
  cases edit with
  | add name kindName value => exact (add_of_boundedAdd h).1
  | edit id value => exact fits_of_tryUpdate h
  | delete id => exact (delete_of_boundedDelete h).1

theorem named?_putNamed (new : Node) (nodes : Forest) :
    named? (putNamed new nodes) new.name = some new := by
  induction nodes with
  | nil => exact List.find?_cons_of_pos (beq_self_eq_true _)
  | cons n nodes ih =>
    rw [putNamed]
    split
    case isTrue => exact List.find?_cons_of_pos (beq_self_eq_true _)
    case isFalse hname =>
      rw [named?, List.find?_cons_of_neg (by exact hname)]
      exact ih

/-- Where writing reaches what reading finds, edits keep to it. -/
theorem onlyWithin_apply {edit : ScopedEdit} {supply : Supply}
    (hreached : root.reached scope = (root.within? scope).toList)
    (h : edit.apply supply root scope = .ok new) : OnlyWithin scope root new := by
  obtain ⟨f, rfl⟩ := edit.exists_update h
  exact onlyWithin_update f hreached

/-- A text is added, if there is room for the way to its place. -/
theorem boundedAdd_text (supply : Supply) (name text : String) (hname : Text.isBlankText name = false)
    (hroom : fits callLimit scope root = true) :
    root.boundedAdd supply name "text" (.text text) scope =
      .ok (if root.isListAt scope then
        update (· ++ [⟨supply.id, positionName (root.within scope).length, .leaf (.text text)⟩])
          scope root
      else update (putNamed ⟨supply.id, name, .leaf (.text text)⟩) scope root) := by
  have hwritten : boundedCoerce callLimit "text" (.text text) = .ok (.leaf (.text text)) := rfl
  have hcoerce : coerce "text" (.text text) = .ok (.leaf (.text text)) := rfl
  refine boundedAdd_of_add hwritten hroom ?_
  unfold add
  rw [hname, hcoerce]
  split
  case isTrue => rfl
  case isFalse => rfl

/-- Whatever siblings there are, some edit would change them. -/
theorem exists_edit_ne (siblings : Forest) (hroom : fits callLimit scope root = true) :
    ∃ edit supply f, ScopedEdit.apply edit supply root scope = .ok (update f scope root) ∧
      f siblings ≠ siblings := by
  by_cases hlist : root.isListAt scope = true
  · have hadd := boundedAdd_text ⟨0⟩ "a" "" (by decide) hroom
    rw [if_pos hlist] at hadd
    refine ⟨.add "a" "text" (.text ""), ⟨0⟩, _, hadd, fun h ↦ ?_⟩
    have hlength := congrArg List.length h
    rw [List.length_append] at hlength
    exact Nat.succ_ne_self _ hlength
  · have hadd (value : String) : ScopedEdit.apply (.add "a" "text" (.text value)) ⟨0⟩ root scope =
        .ok (update (putNamed ⟨Supply.idOf 0, "a", .leaf (.text value)⟩) scope root) := by
      rw [ScopedEdit.apply, boundedAdd_text ⟨0⟩ "a" value (by decide) hroom, if_neg hlist]
      rfl
    by_cases hfirst : putNamed ⟨Supply.idOf 0, "a", .leaf (.text "")⟩ siblings = siblings
    · refine ⟨_, _, _, hadd "b", fun hsecond ↦ ?_⟩
      have hone := named?_putNamed ⟨Supply.idOf 0, "a", .leaf (.text "")⟩ siblings
      have htwo := named?_putNamed ⟨Supply.idOf 0, "a", .leaf (.text "b")⟩ siblings
      rw [hfirst] at hone
      rw [hsecond, hone] at htwo
      simp at htwo
    · exact ⟨_, _, _, hadd "", hfirst⟩

/-- Siblings that are reached and not read are changed by some edit all the same. -/
theorem exists_not_onlyWithin {siblings : Forest} {more : List Forest}
    (hroom : fits callLimit scope root = true)
    (hreached : root.reached scope = (root.within? scope).toList ++ more) (hmem : siblings ∈ more) :
    ∃ edit supply new, ScopedEdit.apply edit supply root scope = .ok new ∧
      ¬ OnlyWithin scope root new := by
  -- The edit would have to leave these siblings as they are, and was chosen not to.
  obtain ⟨edit, supply, f, happly, hne⟩ := exists_edit_ne siblings hroom
  refine ⟨edit, supply, _, happly, fun honly ↦ hne ?_⟩
  have hmap := reached_update f root scope
  have hmore : more.map f = more := by
    cases hwithin : root.within? scope with
    | none =>
      obtain ⟨hscope, hnone⟩ := within?_eq_none_iff.1 hwithin
      rw [honly.none hscope hnone, hreached, hwithin] at hmap
      exact hmap.symm
    | some children =>
      obtain ⟨changed, hreplaces⟩ := honly.some children hwithin
      obtain ⟨more', hold, hnew⟩ := hreplaces.exists_reached
      rw [hreached, hwithin] at hold hmap
      obtain rfl := (List.cons.inj hold).2
      rw [hnew] at hmap
      exact (List.cons.inj hmap).2.symm
  have hsiblings := List.map_eq_map_iff.1 (hmore.trans (List.map_id more).symm)
  exact hsiblings siblings hmem

/--
The edits within a scope keep to the one container to which reading follows the scope, and change
nothing if there is none, just where writing reaches what reading finds and nothing else. Where there
is no room for the way to the container, nothing is changed at all.
-/
theorem onlyWithin_apply_iff (root : Forest) (scope : Scope) :
    (∀ edit supply new, ScopedEdit.apply edit supply root scope = .ok new →
      OnlyWithin scope root new) ↔
      (fits callLimit scope root = true → root.reached scope = (root.within? scope).toList) := by
  constructor
  · intro h hroom
    have hreached : ∃ more, root.reached scope = (root.within? scope).toList ++ more := by
      cases hwithin : root.within? scope with
      | none => exact ⟨_, rfl⟩
      | some children => exact reached_of_within? hwithin
    obtain ⟨more, hmore⟩ := hreached
    cases more with
    | nil => rw [hmore, List.append_nil]
    | cons siblings more =>
      obtain ⟨edit, supply, new, happly, hnot⟩ := exists_not_onlyWithin hroom hmore List.mem_cons_self
      exact absurd (h edit supply new happly) hnot
  · intro h edit supply new happly
    exact onlyWithin_apply (h (ScopedEdit.fits_of_apply happly)) happly

/-- A leaf in front of a dictionary of the same identity. -/
def shadowed : Forest := [⟨"a", "x", .leaf (.text "")⟩, ⟨"a", "y", .branch .dictionary []⟩]

/-- Two dictionaries of the same identity. -/
def doubled : Forest := [⟨"a", "x", .branch .dictionary []⟩, ⟨"a", "y", .branch .dictionary []⟩]

/-- Documents can give siblings one identity. Then an edit reaches a dictionary that reading does not
find, or one more than reading finds. -/
theorem exists_edit_elsewhere :
    (∃ root new, shadowed.toRecords.toRaw.recordsToForest = .ok root ∧
      ScopedEdit.apply (.add "z" "text" .null) ⟨0⟩ root ["a"] = .ok new ∧
      root.container? ["a"] = none ∧ new ≠ root) ∧
    ∃ root new, doubled.toRecords.toRaw.recordsToForest = .ok root ∧
      ScopedEdit.apply (.add "z" "text" .null) ⟨0⟩ root ["a"] = .ok new ∧
      ¬ OnlyWithin ["a"] root new := by
  constructor
  · refine ⟨shadowed, _, rfl, rfl, rfl, fun h ↦ ?_⟩
    have hlength := congrArg (fun nodes ↦ (ids nodes).length) h
    revert hlength
    decide
  · refine ⟨doubled, _, rfl, rfl, fun h ↦ ?_⟩
    obtain ⟨changed, hreplaces⟩ := h.some [] rfl
    obtain ⟨more, hold, hnew⟩ := hreplaces.exists_reached
    obtain rfl : [[]] = more := (List.cons.inj hold).2
    have hlength := congrArg (List.map List.length) (List.cons.inj hnew).2
    revert hlength
    decide

end KeyTree.Forest
