import KeyTree.Proofs.Tree.Apart

/-!
# Reading and writing within a scope

Where siblings have different identities, a scope is a lens: what is written within it is read again,
writing what is read changes nothing, and two changes are one. A change is applied once, to what is
read, and everything around stays in its place. A scope that leads nowhere reads as empty, and no
change is applied within it. Changes within scopes that part can be made in any order. Reading has no
limit, but writing takes a call for each container on the way, and a way that is too long is refused.
-/

namespace KeyTree.Forest

variable {scope rest other : Scope} {root new nodes inner children changed : Forest}
  {before after : List Node} {n : Node}

/-! ## One change after another -/

theorem enter_enter (f g : Forest → Forest) (id : String) (rest : Scope) (n : Node)
    (hbelow : ∀ children, update g rest (update f rest children) = update (g ∘ f) rest children) :
    enter g id rest (enter f id rest n) = enter (g ∘ f) id rest n := by
  cases hchildren : n.children? with
  | none => rw [enter_leaf rest hchildren, enter_leaf rest hchildren, enter_leaf rest hchildren]
  | some children =>
    by_cases hid : n.id = id
    · subst hid
      have hsecond := enter_self (f := g) (n := n.withChildren (update f rest children)) rest
        (children?_withChildren hchildren)
      rw [enter_self rest hchildren, enter_self rest hchildren, ← hbelow]
      exact hsecond.trans (withChildren_withChildren n _ _)
    · rw [enter_of_ne rest hid, enter_of_ne rest hid, enter_of_ne rest hid]

theorem enter_comm {f g : Forest → Forest} {id : String} {rest' : Scope}
    (hbelow : ∀ children, update g rest' (update f rest children) =
      update f rest (update g rest' children)) :
    enter g id rest' (enter f id rest n) = enter f id rest (enter g id rest' n) := by
  cases hchildren : n.children? with
  | none => rw [enter_leaf rest hchildren, enter_leaf rest' hchildren, enter_leaf rest hchildren]
  | some children =>
    by_cases hid : n.id = id
    · subst hid
      have hfirst := enter_self (f := g) (n := n.withChildren (update f rest children)) rest'
        (children?_withChildren hchildren)
      have hsecond := enter_self (f := f) (n := n.withChildren (update g rest' children)) rest
        (children?_withChildren hchildren)
      rw [withChildren_withChildren] at hfirst hsecond
      rw [enter_self rest hchildren, enter_self rest' hchildren]
      exact hfirst.trans ((hbelow children ▸ hsecond).symm)
    · rw [enter_of_ne rest hid, enter_of_ne rest' hid, enter_of_ne rest hid]

theorem enter_comm_of_ne {id id' : String} (f g : Forest → Forest) (rest rest' : Scope) (n : Node)
    (hne : id ≠ id') :
    enter g id' rest' (enter f id rest n) = enter f id rest (enter g id' rest' n) := by
  by_cases hid : n.id = id
  · have hother : n.id ≠ id' := hid ▸ hne
    rw [enter_of_ne rest' hother]
    exact enter_of_ne rest' ((enter_continues f id rest n).1.trans_ne hother)
  · rw [enter_of_ne rest hid]
    exact (enter_of_ne rest ((enter_continues g id' rest' n).1.trans_ne hid)).symm

/-- Two changes within a scope are one. -/
theorem update_update (f g : Forest → Forest) (scope : Scope) (nodes : Forest) :
    update g scope (update f scope nodes) = update (g ∘ f) scope nodes := by
  induction scope generalizing nodes with
  | nil => rfl
  | cons id rest ih =>
    rw [update_cons, update_cons, update_cons, List.map_map]
    exact List.map_congr_left fun n _ ↦ enter_enter f g id rest n ih

theorem update_id (scope : Scope) (nodes : Forest) : update id scope nodes = nodes := by
  induction scope generalizing nodes with
  | nil => rfl
  | cons step rest ih =>
    have hself (n : Node) : enter id step rest n = n := by
      cases hchildren : n.children? with
      | none => exact enter_leaf rest hchildren
      | some children =>
        by_cases hid : n.id = step
        · subst hid
          rw [enter_self rest hchildren, ih, withChildren_eq_self hchildren]
        · exact enter_of_ne rest hid
    exact (List.map_congr_left fun n _ ↦ hself n).trans (List.map_id nodes)

/-- Changes within scopes that part can be made in any order. -/
theorem update_comm (f g : Forest → Forest) (nodes : Forest) (hbelow : ¬ scope <+: other)
    (habove : ¬ other <+: scope) :
    update g other (update f scope nodes) = update f scope (update g other nodes) := by
  induction scope generalizing other nodes with
  | nil => exact absurd List.nil_prefix hbelow
  | cons id rest ih =>
    cases other with
    | nil => exact absurd List.nil_prefix habove
    | cons id' rest' =>
      rw [update_cons, update_cons, update_cons, update_cons, List.map_map, List.map_map]
      refine List.map_congr_left fun n _ ↦ ?_
      rw [Function.comp_apply, Function.comp_apply]
      by_cases hne : id = id'
      · subst hne
        rw [List.cons_prefix_cons, and_iff_right rfl] at hbelow habove
        exact enter_comm fun children ↦ ih children hbelow habove
      · exact enter_comm_of_ne f g rest rest' n hne

/-! ## Where a scope leads -/

theorem withId?_insert (after : List Node) (hbefore : ∀ m ∈ before, m.id ≠ n.id) :
    withId? (before ++ n :: after) n.id = some n := by
  have hnone : before.find? (fun m ↦ m.id == n.id) = none := by
    rw [List.find?_eq_none]
    exact fun m hm heq ↦ hbefore m hm (beq_iff_eq.1 heq)
  simp [withId?, List.find?_append, hnone]

/-- A sibling stands between siblings of other identities. -/
theorem IsApart.exists_insert {among : String → Prop} (h : nodes.IsApart among) (hn : n ∈ nodes) :
    ∃ before after, nodes = before ++ n :: after ∧ (∀ m ∈ before, m.id ≠ n.id) ∧
      ∀ m ∈ after, m.id ≠ n.id := by
  obtain ⟨before, after, rfl⟩ := List.append_of_mem hn
  have hdistinct := h.distinct
  rw [List.map_append, List.map_cons, List.nodup_append, List.nodup_cons] at hdistinct
  obtain ⟨-, ⟨hafter, -⟩, hbefore⟩ := hdistinct
  refine ⟨before, after, rfl, fun m hm ↦ ?_, fun m hm heq ↦ ?_⟩
  · exact hbefore m.id (List.mem_map_of_mem hm) n.id List.mem_cons_self
  · exact hafter (heq ▸ List.mem_map_of_mem hm)

/-- Siblings at the end of a scope are as far apart as all are. -/
theorem IsApart.within {among : String → Prop} (h : root.IsApart among) (scope : Scope) :
    (root.within scope).IsApart among := by
  rw [within_eq_getD]
  induction scope generalizing root with
  | nil => exact h
  | cons id rest ih =>
    cases hwithin : root.within? (id :: rest) with
    | none => exact isApart_nil
    | some children =>
      obtain ⟨before, n, after, inner, rfl, -, -, hinner, hrest⟩ := exists_of_within?_cons hwithin
      have hn := h.below n (List.mem_append_right before List.mem_cons_self)
      have hbelow := ih (Node.isApart_of_children? hn hinner)
      rwa [hrest] at hbelow

section Insert

variable (after : List Node) (hbefore : ∀ m ∈ before, m.id ≠ n.id)
  (hinner : n.children? = some inner)

include hbefore hinner

theorem within?_insert (rest : Scope) :
    within? (before ++ n :: after) (n.id :: rest) = inner.within? rest := by
  rw [within?, withId?_insert after hbefore, Option.bind_some, hinner, Option.bind_some]

theorem within_insert (rest : Scope) :
    within (before ++ n :: after) (n.id :: rest) = inner.within rest := by
  rw [within_eq_getD, within_eq_getD, within?_insert after hbefore hinner]

theorem container?_insert :
    container? (before ++ n :: after) [n.id] = some n := by
  rw [container?, withId?_insert after hbefore]
  simp only [hinner]

theorem container?_insert_cons (hrest : rest ≠ []) :
    container? (before ++ n :: after) (n.id :: rest) = inner.container? rest := by
  obtain ⟨next, rest, rfl⟩ := List.exists_cons_of_ne_nil hrest
  rw [container?, withId?_insert after hbefore]
  simp only [hinner]

end Insert

theorem ReplacesWithin.within?_eq (h : ReplacesWithin children changed scope root new) :
    root.within? scope = some children ∧ new.within? scope = some changed := by
  induction h with
  | here => exact ⟨rfl, rfl⟩
  | @inside rest before after n inner inner' hbefore hinner _ ih =>
    have hnew := within?_insert (n := n.withChildren inner') after hbefore
      (children?_withChildren hinner) rest
    rw [within?_insert after hbefore hinner rest]
    exact ⟨ih.1, hnew.trans ih.2⟩

theorem ReplacesWithin.id_mem_ids (h : ReplacesWithin children changed scope root new)
    (hn : n ∈ children) : n.id ∈ ids root := by
  induction h with
  | here => exact Forest.id_mem_ids hn
  | @inside _ before after k inner _ _ hinner _ ih =>
    obtain ⟨id, name, payload⟩ := k
    cases payload with
    | leaf value => cases hinner
    | branch shape below =>
      obtain rfl : below = inner := Option.some.inj hinner
      exact mem_ids.2 ⟨_, List.mem_append_right before List.mem_cons_self, .inr ih⟩

theorem ReplacesWithin.ne_nil (h : ReplacesWithin children changed scope root new)
    (hchanged : changed ≠ []) : new ≠ [] := by
  cases h with
  | here => exact hchanged
  | inside => exact List.append_ne_nil_of_right_ne_nil _ (List.cons_ne_nil _ _)

/-- Nothing differs if the siblings within the scope are the same. -/
theorem ReplacesWithin.eq_self (h : ReplacesWithin children changed scope root new)
    (heq : changed = children) : new = root := by
  induction h with
  | here => exact heq
  | inside _ hinner _ ih => rw [ih, withChildren_eq_self hinner]

/-- A container that a scope leads to is the same node of the same kind in two trees, and has the same
place among its siblings. -/
structure KeepsPlace (init : Scope) (id : String) (root new : Forest) (n m : Node) (place : Nat) :
    Prop where
  old : root.container? (init ++ [id]) = some n
  kept : new.container? (init ++ [id]) = some m
  continues : m.Continues n
  kind : m.kind = n.kind
  oldPlace : (root.within init)[place]? = some n
  keptPlace : (new.within init)[place]? = some m

/-- The containers on the way of a scope are kept. -/
theorem ReplacesWithin.exists_keepsPlace (h : ReplacesWithin children changed scope root new)
    {init : Scope} {id : String} (hinit : init ++ [id] <+: scope) :
    ∃ n m place, KeepsPlace init id root new n m place := by
  induction h generalizing init with
  | here => simp at hinit
  | @inside rest before after n inner inner' hbefore hinner _ ih =>
    have hinner' := @children?_withChildren n _ inner' hinner
    cases init with
    | nil =>
      obtain ⟨rfl, -⟩ := List.cons_prefix_cons.1 hinit
      refine ⟨n, n.withChildren inner', before.length, container?_insert after hbefore hinner,
        container?_insert (n := n.withChildren inner') after hbefore hinner',
        n.continues_withChildren inner', kind_withChildren n inner', ?_, ?_⟩
      · simp [within]
      · simp [within]
    | cons first init =>
      obtain ⟨rfl, hrest⟩ := List.cons_prefix_cons.1 hinit
      obtain ⟨k, m, place, hkeeps⟩ := ih hrest
      have hne : init ++ [id] ≠ [] := List.append_ne_nil_of_right_ne_nil init (List.cons_ne_nil id [])
      refine ⟨k, m, place, ?_, ?_, hkeeps.continues, hkeeps.kind, ?_, ?_⟩
      · exact (container?_insert_cons after hbefore hinner hne).trans hkeeps.old
      · exact (container?_insert_cons (n := n.withChildren inner') after hbefore hinner' hne).trans
          hkeeps.kept
      · rw [within_insert after hbefore hinner]
        exact hkeeps.oldPlace
      · have hwithin := within_insert (n := n.withChildren inner') after hbefore hinner' init
        exact (congrArg (·[place]?) hwithin).trans hkeeps.keptPlace

/-! ## Room for the way -/

/-- Whether there is room for the way through one node. -/
def fitsIn (room : Nat) (id : String) (rest : Scope) (n : Node) : Bool :=
  match n.children? with
  | some children => n.id != id || fits room rest children
  | none => true

section

variable {room : Nat} {id : String}

theorem fits_cons (room : Nat) (id : String) (rest : Scope) (nodes : Forest) :
    fits (room + 1) (id :: rest) nodes = nodes.all (fitsIn room id rest) := rfl

theorem fitsIn_leaf (hchildren : n.children? = none) : fitsIn room id rest n = true := by
  rw [fitsIn, hchildren]

theorem fitsIn_of_ne (h : n.id ≠ id) : fitsIn room id rest n = true := by
  unfold fitsIn
  split
  case h_1 => rw [bne_iff_ne.2 h, Bool.true_or]
  case h_2 => rfl

theorem fitsIn_self (hchildren : n.children? = some children) :
    fitsIn room n.id rest n = fits room rest children := by
  rw [fitsIn, hchildren]
  dsimp only
  rw [bne_self_eq_false, Bool.false_or]

/-- There is room for the way along a scope if there is room for more calls than it is long. -/
theorem fits_of_length_lt (h : scope.length < room) (nodes : Forest) :
    fits room scope nodes = true := by
  induction room, scope, nodes using fits.induct with
  | case1 => exact absurd h (Nat.not_lt_zero _)
  | case2 => rfl
  | case3 room id rest nodes ih =>
    rw [fits_cons, List.all_eq_true]
    intro n _
    cases hchildren : n.children? with
    | none => exact fitsIn_leaf hchildren
    | some children =>
      by_cases hid : n.id = id
      · subst hid
        rw [fitsIn_self hchildren]
        exact ih children (Nat.lt_of_succ_lt_succ h)
      · exact fitsIn_of_ne hid

/-- A scope that leads to siblings goes through a container for each of its identities. -/
theorem length_le_height_of_within? (hwithin : nodes.within? scope = some children) :
    scope.length ≤ height nodes := by
  induction scope generalizing nodes with
  | nil => exact Nat.zero_le _
  | cons id rest ih =>
    obtain ⟨before, n, after, inner, rfl, rfl, -, hinner, hrest⟩ := exists_of_within?_cons hwithin
    calc
      rest.length + 1 ≤ height inner + 1 := Nat.succ_le_succ (ih hrest)
      _ = n.height := (Node.height_of_children? hinner).symm
      _ ≤ height (before ++ n :: after) :=
        height_le_iff.1 (le_refl _) n (List.mem_append_right before List.mem_cons_self)

/-- The way along a scope that leads to siblings is as long as the scope. -/
theorem fits_of_within? (hwithin : nodes.within? scope = some children) :
    fits room scope nodes = decide (scope.length < room) := by
  by_cases hroom : scope.length < room
  · rw [fits_of_length_lt hroom, decide_eq_true hroom]
  · rw [decide_eq_false hroom]
    induction room, scope, nodes using fits.induct with
    | case1 => rfl
    | case2 => exact absurd (Nat.succ_pos _) hroom
    | case3 room id rest nodes ih =>
      obtain ⟨before, n, after, inner, rfl, rfl, hbefore, hinner, hrest⟩ :=
        exists_of_within?_cons hwithin
      have hshort := ih inner hrest fun hlt ↦ hroom (Nat.succ_lt_succ hlt)
      rw [fits_cons, List.all_append, List.all_cons, fitsIn_self hinner, hshort, Bool.false_and,
        Bool.and_false]

/-- A change makes the way to no place longer or shorter that it does not lie above. -/
theorem fits_update (room : Nat) (f : Forest → Forest) (h : scope <+: other → other = scope)
    (nodes : Forest) : fits room other (update f scope nodes) = fits room other nodes := by
  induction room, other, nodes using fits.induct generalizing scope with
  | case1 => rfl
  | case2 => rfl
  | case3 room id rest nodes ih =>
    cases scope with
    | nil => cases h List.nil_prefix
    | cons id' rest' =>
      rw [update_cons, fits_cons, fits_cons, List.all_map]
      refine List.all_congr rfl fun n ↦ ?_
      rw [Function.comp_apply]
      cases hchildren : n.children? with
      | none => rw [enter_leaf rest' hchildren]
      | some children =>
        by_cases hid' : n.id = id'
        · subst hid'
          rw [enter_self rest' hchildren]
          by_cases hid : n.id = id
          · subst hid
            have hrest : rest' <+: rest → rest = rest' := fun hprefix ↦
              (List.cons.inj (h (List.cons_prefix_cons.2 ⟨rfl, hprefix⟩))).2
            have hnew := @children?_withChildren n children (update f rest' children) hchildren
            exact (fitsIn_self hnew).trans ((ih children hrest).trans (fitsIn_self hchildren).symm)
          · have hnew : (n.withChildren (update f rest' children)).id ≠ id := hid
            rw [fitsIn_of_ne hnew, fitsIn_of_ne hid]
        · rw [enter_of_ne rest' hid']

end

/-- Two changes in one place are one, also within the limits. -/
theorem boundedUpdate_boundedUpdate (f g : Forest → Forest) (scope : Scope) (root : Forest) :
    (boundedUpdate f scope root >>= boundedUpdate g scope) = boundedUpdate (g ∘ f) scope root := by
  unfold boundedUpdate
  split
  case isFalse => rfl
  case isTrue hroom =>
    change (if fits callLimit scope (update f scope root) then _ else _) = _
    rw [fits_update callLimit f (fun _ ↦ rfl), if_pos hroom, update_update]

/-- Changes in places that part can be made in any order, also within the limits. -/
theorem boundedUpdate_comm (f g : Forest → Forest) (root : Forest) (hbelow : ¬ scope <+: other)
    (habove : ¬ other <+: scope) :
    (boundedUpdate f scope root >>= boundedUpdate g other) =
      (boundedUpdate g other root >>= boundedUpdate f scope) := by
  have hother := fits_update callLimit f (fun h ↦ absurd h hbelow) root
  have hscope := fits_update callLimit g (fun h ↦ absurd h habove) root
  have hscopeBind : (boundedUpdate f scope root >>= boundedUpdate g other) =
      if fits callLimit scope root && fits callLimit other root then
        .ok (update g other (update f scope root)) else .error (.limit .tooDeep) := by
    unfold boundedUpdate
    cases fits callLimit scope root with
    | false => rfl
    | true =>
      change (if fits callLimit other (update f scope root) then _ else _) = _
      rw [hother, Bool.true_and]
  have hotherBind : (boundedUpdate g other root >>= boundedUpdate f scope) =
      if fits callLimit scope root && fits callLimit other root then
        .ok (update f scope (update g other root)) else .error (.limit .tooDeep) := by
    unfold boundedUpdate
    cases fits callLimit other root with
    | false =>
      rw [Bool.and_false]
      rfl
    | true =>
      change (if fits callLimit scope (update g other root) then _ else _) = _
      rw [hscope, Bool.and_true]
  rw [hscopeBind, hotherBind, update_comm f g root hbelow habove]

/-! ## Changes that may be refused -/

section

variable {f : Nat → Forest → Except ChangeFault Forest} {room : Nat}

/-- Writing that reaches nothing applies nothing, so nothing but the way can be refused. -/
theorem tryUpdate_eq_ite (h : nodes.reached scope = []) :
    tryUpdate f room scope nodes =
      if fits room scope nodes then .ok nodes else .error (.limit .tooDeep) := by
  induction room, scope, nodes using tryUpdate.induct with
  | case1 => rfl
  | case2 => cases h
  | case3 room id rest nodes ih =>
    rw [reached_cons, List.flatMap_eq_nil_iff] at h
    rw [tryUpdate_cons, fits_cons]
    apply mapM_eq_ite
    intro n hn
    cases hchildren : n.children? with
    | none =>
      rw [fitsIn_leaf hchildren, if_pos rfl, tryEnter, hchildren]
    | some children =>
      by_cases hid : n.id = id
      · subst hid
        have hreached := h n hn
        rw [reachedIn_self rest hchildren] at hreached
        rw [tryEnter_self hchildren, fitsIn_self hchildren, ih children hreached]
        split
        case isTrue => exact congrArg Except.ok (withChildren_eq_self hchildren)
        case isFalse => rfl
      · rw [tryEnter_of_ne hid, fitsIn_of_ne hid, if_pos rfl]

/-- Writing that reaches one place applies the change there, once. -/
theorem tryUpdate_eq_map (hroom : scope.length < room)
    (hwithin : nodes.within? scope = some children) (hreached : nodes.reached scope = [children]) :
    tryUpdate f room scope nodes =
      (f (room - scope.length - 1) children).map fun changed ↦
        update (fun _ ↦ changed) scope nodes := by
  induction room, scope, nodes using tryUpdate.induct with
  | case1 => exact absurd hroom (Nat.not_lt_zero _)
  | case2 room nodes =>
    obtain rfl := Option.some.inj hwithin
    rw [tryUpdate, List.length_nil, Nat.sub_zero, Nat.succ_sub_one]
    cases f room nodes <;> rfl
  | case3 room id rest nodes ih =>
    obtain ⟨before, n, after, inner, rfl, rfl, hbefore, hinner, hrest⟩ :=
      exists_of_within?_cons hwithin
    have hrestRoom : rest.length < room := Nat.lt_of_succ_lt_succ hroom
    obtain ⟨more, hmore⟩ := reached_of_within? hrest
    rw [reached_append rest hbefore hinner, hmore, List.cons_append, List.cons.injEq,
      List.append_eq_nil_iff] at hreached
    obtain ⟨-, rfl, hafter⟩ := hreached
    have hskip : ∀ m ∈ before, tryEnter f room n.id rest m = .ok m :=
      fun m hm ↦ tryEnter_of_ne (hbefore m hm)
    have hbehind : after.mapM (tryEnter f room n.id rest) = .ok after := by
      rw [← tryUpdate_cons, tryUpdate_eq_ite hafter, if_pos (fits_of_length_lt hroom after)]
    rw [tryUpdate_cons, mapM_insert_eq_map n hskip hbehind, tryEnter_self hinner,
      ih inner hrestRoom hrest hmore, List.length_cons, Nat.succ_sub_succ]
    simp only [update_insert _ hbefore hinner hafter]
    cases f (room - rest.length - 1) children <;> rfl

/-- Without room for the way to the siblings, no change is applied. -/
theorem tryUpdate_eq_error (hroom : room ≤ scope.length)
    (hwithin : nodes.within? scope = some children) :
    tryUpdate f room scope nodes = .error (.limit .tooDeep) := by
  induction room, scope, nodes using tryUpdate.induct with
  | case1 => rfl
  | case2 => exact absurd hroom (Nat.not_succ_le_zero _)
  | case3 room id rest nodes ih =>
    obtain ⟨before, n, after, inner, rfl, rfl, hbefore, hinner, hrest⟩ :=
      exists_of_within?_cons hwithin
    have hskip : ∀ m ∈ before, ∃ m', tryEnter f room n.id rest m = .ok m' :=
      fun m hm ↦ ⟨m, tryEnter_of_ne (hbefore m hm)⟩
    have hn : tryEnter f room n.id rest n = .error (.limit .tooDeep) := by
      rw [tryEnter_self hinner, ih inner (Nat.le_of_succ_le_succ hroom) hrest]
      rfl
    rw [tryUpdate_cons, mapM_eq_error hskip hn]

end

/-! ## The laws -/

/-- A scope that leads to siblings: those of the root, or the children of a container. -/
def IsLive (scope : Scope) (root : Forest) : Prop :=
  scope = [] ∨ ∃ n, root.container? scope = some n ∧ n.isContainer = true

theorem exists_within?_of_isLive (h : IsLive scope root) :
    ∃ children, root.within? scope = some children := by
  rw [← Option.ne_none_iff_exists']
  intro hnone
  obtain ⟨hscope, hcontainer⟩ := within?_eq_none_iff.1 hnone
  rcases h with rfl | ⟨n, hn, -⟩
  · exact hscope rfl
  · rw [hcontainer] at hn
    cases hn

theorem within?_eq_none_of_not_isLive (h : ¬ IsLive scope root) : root.within? scope = none := by
  rw [within?_eq_none_iff]
  refine ⟨fun hscope ↦ h (.inl hscope), ?_⟩
  cases hcontainer : root.container? scope with
  | none => rfl
  | some n => exact absurd (.inr ⟨n, hcontainer, isContainer_of_container? hcontainer⟩) h

/-- Reading and writing within a scope that leads somewhere. -/
structure LensLaws (scope : Scope) (root : Forest) : Prop where
  /-- What has been written is read. -/
  within_update : ∀ f, (update f scope root).within scope = f (root.within scope)
  /-- To write what is read is no change. -/
  update_id : update id scope root = root
  /-- Two changes are one. -/
  update_update : ∀ f g, update g scope (update f scope root) = update (g ∘ f) scope root
  /-- Each container on the way is kept. -/
  ancestors : ∀ f init id, init ++ [id] <+: scope →
    ∃ n m place, KeepsPlace init id root (update f scope root) n m place
  /-- Nothing differs but the siblings that are written. -/
  outside : ∀ f, ReplacesWithin (root.within scope) (f (root.within scope)) scope root
    (update f scope root)
  /-- With room for the way, a change that may be refused is applied to what is read, and to nothing
  else, with the room that is left. -/
  once : ∀ f room, scope.length < room → tryUpdate f room scope root =
    (f (room - scope.length - 1) (root.within scope)).map fun changed ↦
      update (fun _ ↦ changed) scope root
  /-- Without room for the way, none is applied. -/
  refused : ∀ f room, room ≤ scope.length → tryUpdate f room scope root = .error (.limit .tooDeep)
  /-- The way is as long as the scope. -/
  fits_eq : ∀ {room}, fits room scope root = decide (scope.length < room)
  /-- A change that cannot be refused is made if the way is short enough. -/
  bounded : ∀ f, boundedUpdate f scope root =
    if scope.length < callLimit then .ok (update f scope root) else .error (.limit .tooDeep)

/-- Reading and writing within a scope that leads nowhere. Not even a change that is always refused
is refused here, as none is applied. What is refused is a way that is too long. -/
structure NoLens (scope : Scope) (root : Forest) : Prop where
  within_eq_nil : root.within scope = []
  update_eq_self : ∀ f, update f scope root = root
  never : ∀ f room, tryUpdate f room scope root =
    if fits room scope root then .ok root else .error (.limit .tooDeep)
  bounded : ∀ f, boundedUpdate f scope root =
    if fits callLimit scope root then .ok root else .error (.limit .tooDeep)

theorem lensLaws_of_reached (hwithin : root.within? scope = some children)
    (hreached : root.reached scope = [children]) : LensLaws scope root := by
  have hread : root.within scope = children := by
    rw [within_eq_getD, hwithin, Option.getD_some]
  have hreplaces (f : Forest → Forest) := replacesWithin_update f hwithin hreached
  refine ⟨fun f ↦ ?_, update_id scope root, fun f g ↦ update_update f g scope root,
    fun f init id hinit ↦ (hreplaces f).exists_keepsPlace hinit, fun f ↦ ?_, fun f room hroom ↦ ?_,
    fun f room hroom ↦ tryUpdate_eq_error hroom hwithin, fits_of_within? hwithin, fun f ↦ ?_⟩
  · rw [within_eq_getD, (hreplaces f).within?_eq.2, hread, Option.getD_some]
  · rw [hread]
    exact hreplaces f
  · rw [hread]
    exact tryUpdate_eq_map hroom hwithin hreached
  · simp only [boundedUpdate, fits_of_within? hwithin, decide_eq_true_eq]

theorem IsApart.lensLaws {among : String → Prop} (hroot : root.IsApart among)
    (hlive : IsLive scope root) : LensLaws scope root := by
  obtain ⟨children, hwithin⟩ := exists_within?_of_isLive hlive
  have hreached := hroot.reached_eq scope
  rw [hwithin] at hreached
  exact lensLaws_of_reached hwithin hreached

theorem noLens_of_reached (hwithin : root.within? scope = none) (hreached : root.reached scope = []) :
    NoLens scope root where
  within_eq_nil := by rw [within_eq_getD, hwithin, Option.getD_none]
  update_eq_self _ := Forest.update_eq_self hreached
  never _ _ := tryUpdate_eq_ite hreached
  bounded f := by rw [boundedUpdate, Forest.update_eq_self hreached]

theorem IsApart.noLens {among : String → Prop} (hroot : root.IsApart among)
    (hdead : ¬ IsLive scope root) : NoLens scope root := by
  have hwithin := within?_eq_none_of_not_isLive hdead
  have hreached := hroot.reached_eq scope
  rw [hwithin] at hreached
  exact noLens_of_reached hwithin hreached

/-- Whether a scope is a lens: it is one where it leads somewhere, and otherwise does nothing. Ways
that are too long are refused, and so are they after a change. -/
structure IsLens (scope : Scope) (root : Forest) : Prop where
  live : IsLive scope root → LensLaws scope root
  dead : ¬ IsLive scope root → NoLens scope root
  compose : ∀ f g,
    (boundedUpdate f scope root >>= boundedUpdate g scope) = boundedUpdate (g ∘ f) scope root
  /-- Changes elsewhere can be made before or after. -/
  comm : ∀ other f g, ¬ scope <+: other → ¬ other <+: scope →
    update g other (update f scope root) = update f scope (update g other root) ∧
      (boundedUpdate f scope root >>= boundedUpdate g other) =
        (boundedUpdate g other root >>= boundedUpdate f scope)

/-- In a tree where siblings have different identities, every scope is a lens. -/
theorem isLens_of_isApart (hroot : root.IsApart fun _ ↦ True) (scope : Scope) :
    IsLens scope root where
  live := hroot.lensLaws
  dead := hroot.noLens
  compose f g := boundedUpdate_boundedUpdate f g scope root
  comm _ f g hbelow habove :=
    ⟨update_comm f g root hbelow habove, boundedUpdate_comm f g root hbelow habove⟩

/-- A dictionary in a list, with a sibling that is a leaf. -/
def boxed : Forest := [
  ⟨"i", "l", .branch .list [
    ⟨"j", "0", .leaf (.text "t")⟩,
    ⟨"k", "1", .branch .dictionary [⟨"j", "x", .leaf (.boolean true)⟩]⟩]⟩]

theorem isLens_boxed : (boxed.IsApart fun _ ↦ True) ∧ IsLens ["i", "k"] boxed := by
  have hleaf : Payload.IsApart (fun _ ↦ True) (.leaf (.boolean true)) := .leaf _
  have hdictionary : Payload.IsApart (fun _ ↦ True)
      (.branch .dictionary [⟨"j", "x", .leaf (.boolean true)⟩]) :=
    .branch (by decide) (by simp) (by simpa using hleaf)
  have hlist : boxed.IsApart fun _ ↦ True := by
    refine isApart_singleton trivial (.branch (by decide) (by simp) ?_)
    exact List.forall_mem_cons.2 ⟨.leaf _, List.forall_mem_singleton.2 hdictionary⟩
  exact ⟨hlist, isLens_of_isApart hlist ["i", "k"]⟩

/-! ## Ways that are too long -/

/-- The identities of a chain lead to the children of its last dictionary. -/
theorem within?_chain (supply : Supply) (children : Forest) (head : String) (tail : List String) :
    within? [chain supply (.branch .dictionary children) head tail]
      (supply.issued (tail.length + 1)) = some children := by
  have hsingle (n : Node) {inner : Forest} (hinner : n.children? = some inner) (rest : Scope) :
      within? [n] (n.id :: rest) = inner.within? rest :=
    within?_insert [] (List.forall_mem_nil _) hinner rest
  induction tail generalizing supply head with
  | nil => exact hsingle (chain supply (.branch .dictionary children) head []) rfl []
  | cons next rest ih =>
    rw [List.length_cons, Supply.issued_succ]
    exact (hsingle (chain supply _ head (next :: rest)) rfl _).trans (ih (supply.skip 1) next)

/-- There is a way that is too long for the calls of a change, though siblings are read at its end. -/
theorem exists_long_way : ∃ root scope, (root.IsApart fun _ ↦ True) ∧
    root.within? scope = some [] ∧ fits callLimit scope root = false := by
  let tail := List.replicate callLimit "a"
  have hempty : Payload.IsApart (Supply.IsSpent ⟨0⟩) (.branch .dictionary []) :=
    .branch List.nodup_nil nofun nofun
  have hroot := isApart_nil.append_chain hempty "a" tail
  have hwithin := within?_chain ⟨0⟩ [] "a" tail
  refine ⟨_, _, hroot.mono fun _ _ ↦ trivial, hwithin, ?_⟩
  have hlong : ¬ (Supply.issued ⟨0⟩ (tail.length + 1)).length < callLimit := by
    rw [Supply.issued, List.length_map, List.length_range, List.length_replicate]
    exact (Nat.lt_succ_self _).not_gt
  exact (fits_of_within? hwithin).trans (decide_eq_false hlong)

/-- No change is made at the end of a way that is too long, whatever is read there. -/
theorem exists_update_too_deep : ∃ root scope, (root.IsApart fun _ ↦ True) ∧ IsLive scope root ∧
    root.within? scope = some [] ∧ ∀ f, boundedUpdate f scope root = .error (.limit .tooDeep) := by
  obtain ⟨root, scope, hroot, hwithin, hlong⟩ := exists_long_way
  refine ⟨root, scope, hroot, ?_, hwithin, fun f ↦ ?_⟩
  · by_contra hdead
    rw [within?_eq_none_of_not_isLive hdead] at hwithin
    cases hwithin
  · rw [boundedUpdate, hlong, if_neg Bool.false_ne_true]

end KeyTree.Forest
