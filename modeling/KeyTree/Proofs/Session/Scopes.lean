import KeyTree.Proofs.Session.Identity
import KeyTree.Proofs.Tree.Apart

/-!
# Edits through a scope

A scope is kept as identities while calls replace what they lead to. Whatever has become of it, an edit
through it changes the children of the container to which it leads now, and nothing if it leads to
none. Calls keep to this as long as the values they put in hold no siblings of the same identity.
-/

namespace KeyTree

/-- What a call puts into the tree keeps siblings apart and has only identities that are spent. -/
def Call.BringsApart (supply : Supply) : Call → Prop
  | set _ value kindName =>
    ∀ payload, coerce kindName value = .ok payload → payload.IsApart supply.IsSpent
  | add _ kindName value =>
    ∀ payload, coerce kindName value = .ok payload → payload.IsApart supply.IsSpent
  | _ => True

/-- A call that changes the siblings within the scope. -/
def Call.IsScoped : Call → Prop
  | add _ _ _ => True
  | edit _ _ => True
  | remove _ => True
  | _ => False

namespace Session

variable {s : Session}

/-- All calls of a run bring in what keeps siblings apart. -/
def BringsApart (s : Session) : List Call → Prop
  | [] => True
  | call :: calls => call.BringsApart s.supply ∧ (s.perform call).2.BringsApart calls

/-- Siblings of the tree have different identities, and the supply gives out none of these. -/
def IsApart (s : Session) : Prop := s.root.IsApart s.supply.IsSpent

/-! ## Calls keep siblings apart -/

theorem IsApart.of_eq {s' : Session} (h : s.IsApart) (hroot : s'.root = s.root)
    (hsupply : s'.supply = s.supply) : s'.IsApart := by
  unfold IsApart
  rw [hroot, hsupply]
  exact h

theorem isApart_commit {root : Forest} (h : root.IsApart s.supply.IsSpent) :
    (s.commit root).2.IsApart := by
  obtain ⟨hroot, hsupply⟩ := commit_spec s root
  unfold IsApart
  rw [hroot, hsupply]
  exact h

theorem IsApart.skip (h : s.IsApart) (count : Nat) :
    IsApart { s with supply := s.supply.skip count } :=
  h.mono fun _ hid ↦ hid.skip count

theorem IsApart.set {path kindName : String} {value : Raw} (h : s.IsApart)
    (hcall : (Call.set path value kindName).BringsApart s.supply) :
    (s.set path value kindName).2.IsApart := by
  rcases set_spec s path value kindName with hsame | ⟨p, payload, -, hcoerce, hput⟩
  · rw [hsame]
    exact h
  · rcases hput with hput | hput
    · rw [hput]
      exact isApart_commit (Forest.IsApart.putAlong h (hcall payload hcoerce) _ _)
    · rw [hput]
      exact h.skip _

theorem IsApart.add {name kindName : String} {value : Raw} (h : s.IsApart)
    (hcall : (Call.add name kindName value).BringsApart s.supply) :
    (s.add name kindName value).2.IsApart := by
  rcases add_spec s name kindName value with hsame | ⟨root, hadd, hcommit⟩
  · rw [hsame]
    exact h
  · rw [hcommit]
    exact isApart_commit (Forest.IsApart.add h hcall (Forest.add_of_boundedAdd hadd).2)

theorem IsApart.edit (h : s.IsApart) (id : String) (value : Raw) : (s.edit id value).2.IsApart := by
  rcases edit_spec s id value with hsame | ⟨root, hedit, hcommit⟩
  · rw [hsame]
    exact h
  · rw [hcommit]
    exact isApart_commit (Forest.IsApart.edit h hedit)

theorem IsApart.remove (h : s.IsApart) (id : String) : (s.remove id).2.IsApart := by
  rcases remove_spec s id with hsame | ⟨root, hdelete, hcommit⟩
  · rw [hsame]
    exact h
  · obtain ⟨-, rfl⟩ := Forest.delete_of_boundedDelete hdelete
    rw [hcommit]
    exact isApart_commit (Forest.IsApart.delete h id s.scope)

theorem isApart_apply {supply supply' : Supply} {root : Forest} {params : Trigger.Params}
    {effect : Trigger.Effect} (h : root.IsApart supply.IsSpent)
    (happly : Trigger.apply supply root params = .ok (effect, supply')) :
    effect.root.IsApart supply'.IsSpent ∧ ∃ count, supply' = supply.skip count := by
  rcases apply_spec happly with ⟨-, hroot, rfl⟩ | ⟨key, path, payload, -, -, hbare, hroot, rfl⟩
  · rw [hroot]
    exact ⟨h, 0, supply'.skip_zero.symm⟩
  · rw [hroot]
    exact ⟨h.putAlong (hbare.isApart _) path.head path.tail, _, rfl⟩

theorem IsApart.applyTrigger (h : s.IsApart) (params : Trigger.Params) :
    (s.applyTrigger params).2.IsApart := by
  rcases applyTrigger_spec s params with hsame | ⟨effect, supply, happly, hstep⟩
  · rw [hsame]
    exact h
  · obtain ⟨hroot, count, rfl⟩ := isApart_apply h happly
    rcases hstep with hstep | hstep
    · rw [hstep]
      exact isApart_commit hroot
    · rw [hstep]
      exact h.skip count

theorem IsApart.replace {imported : Except ImportFault (Forest × Supply)} (h : s.IsApart)
    (himported : ∀ root supply, imported = .ok (root, supply) →
      ∃ count, Forest.ids root = s.supply.issued count ∧ supply = s.supply.skip count) :
    (s.replace imported).2.IsApart := by
  rcases replace_spec s imported with hsame | ⟨root, supply, hok, hroot, hsupply⟩
  · rw [hsame]
    exact h
  · obtain ⟨count, hids, rfl⟩ := himported root supply hok
    unfold IsApart
    rw [hroot, hsupply]
    exact Forest.isApart_of_ids hids

theorem supply_enter (s : Session) (id : String) : (s.enter id).2.supply = s.supply := by
  unfold enter
  split
  · rfl
  · split <;> rfl

theorem supply_navigate (s : Session) (path : String) :
    (s.navigate path).2.supply = s.supply := by
  unfold navigate
  split <;> rfl

theorem IsApart.perform {call : Call} (h : s.IsApart) (hcall : call.BringsApart s.supply) :
    (s.perform call).2.IsApart := by
  cases call with
  | set path value kindName => exact h.set hcall
  | applyTrigger params => exact h.applyTrigger params
  | openLink library link =>
    change (s.useLink (Trigger.takeLink library link)).2.IsApart
    cases Trigger.takeLink library link with
    | error fault => exact h
    | ok taken => exact h.applyTrigger _
  | add name kindName value => exact h.add hcall
  | edit id value => exact h.edit id value
  | remove id => exact h.remove id
  | enter id => exact h.of_eq (root_enter s id) (supply_enter s id)
  | navigate path => exact h.of_eq (root_navigate s path) (supply_navigate s path)
  | up levels => exact h.of_eq rfl rfl
  | importSource source => exact h.replace fun root supply hok ↦ (Forest.ofSource_spec hok).2
  | importDocument document => exact h.replace fun root supply hok ↦ (Forest.ofDocument_spec hok).2

theorem IsApart.run {calls : List Call} (h : s.IsApart) (hcalls : s.BringsApart calls) :
    (s.run calls).IsApart := by
  induction calls generalizing s with
  | nil => exact h
  | cons call calls ih => exact ih (h.perform hcalls.1) hcalls.2

/-! ## Edits through the scope -/

/-- Edits change the children of the container to which the scope leads. If it leads to none, there
are no nodes to see and none can be added. -/
structure EditsWithin (s : Session) : Prop where
  only : ∀ call, call.IsScoped → Forest.OnlyWithin s.scope s.root (s.perform call).2.root
  nodes : s.scope ≠ [] → s.container? = none → s.nodes = []
  add : s.scope ≠ [] → s.container? = none →
    ∀ name kindName value, s.add name kindName value = (.error .deadScope, s)

theorem nodes_eq_nil (hscope : s.scope ≠ []) (hnone : s.container? = none) : s.nodes = [] := by
  rw [nodes, Forest.within_eq_getD, Forest.within?_eq_none_iff.2 ⟨hscope, hnone⟩]
  rfl

theorem add_eq_error (hscope : s.scope ≠ []) (hnone : s.container? = none)
    (name kindName : String) (value : Raw) :
    s.add name kindName value = (.error .deadScope, s) := by
  have hempty : s.scope.isEmpty = false := List.isEmpty_eq_false_iff.2 hscope
  unfold Session.add
  rw [hempty, hnone]
  rfl

/-- The tree stays, or becomes what one edit within the scope makes of it. -/
def IsEdited (s s' : Session) : Prop :=
  s'.root = s.root ∨ ∃ edit, Forest.ScopedEdit.apply edit s.supply s.root s.scope = .ok s'.root

theorem isEdited_commit {edit : Forest.ScopedEdit} {supply : Supply} {root : Forest}
    (h : edit.apply s.supply s.root s.scope = .ok root) :
    IsEdited s ({ s with supply := supply }.commit root).2 := by
  right
  rw [(commit_spec _ root).1]
  exact ⟨edit, h⟩

theorem isEdited_add (s : Session) (name kindName : String) (value : Raw) :
    IsEdited s (s.add name kindName value).2 := by
  rcases add_spec s name kindName value with hsame | ⟨root, hadd, hcommit⟩
  · exact .inl (congrArg Session.root hsame)
  · rw [hcommit]
    exact @isEdited_commit s (.add name kindName value) _ root hadd

theorem isEdited_edit (s : Session) (id : String) (value : Raw) :
    IsEdited s (s.edit id value).2 := by
  rcases edit_spec s id value with hsame | ⟨root, hedit, hcommit⟩
  · exact .inl (congrArg Session.root hsame)
  · rw [hcommit]
    exact @isEdited_commit s (.edit id value) s.supply root hedit

theorem isEdited_remove (s : Session) (id : String) : IsEdited s (s.remove id).2 := by
  rcases remove_spec s id with hsame | ⟨root, hdelete, hcommit⟩
  · exact .inl (congrArg Session.root hsame)
  · rw [hcommit]
    exact @isEdited_commit s (.delete id) s.supply root hdelete

theorem isEdited_perform {call : Call} (hcall : call.IsScoped) :
    IsEdited s (s.perform call).2 := by
  cases call with
  | add name kindName value => exact isEdited_add s name kindName value
  | edit id value => exact isEdited_edit s id value
  | remove id => exact isEdited_remove s id
  | set | applyTrigger | openLink | enter | navigate | up | importSource | importDocument =>
    exact absurd hcall id

theorem IsApart.editsWithin (h : s.IsApart) : s.EditsWithin where
  only call hcall := by
    rcases isEdited_perform hcall with hroot | ⟨edit, hedit⟩
    · rw [hroot]
      exact .refl s.scope s.root
    · exact Forest.onlyWithin_apply (h.reached_eq s.scope) hedit
  nodes := nodes_eq_nil
  add := add_eq_error

/--
After every run of calls from a tree of different identities, whose values put in no siblings of the
same identity: an edit through the scope changes the children of the one container to which the scope
leads at that time. If there is none, it changes nothing.
-/
theorem editsWithin_run {calls : List Call} (hids : s.root.IsIdentified s.supply)
    (hcalls : s.BringsApart calls) : (s.run calls).EditsWithin :=
  (IsApart.run hids.isApart hcalls).editsWithin

/-- A container, to be put into a list. -/
def box (i : Nat) : Node := ⟨Supply.idOf i, "box", .branch .dictionary []⟩

/-- A session on an empty tree, with some identities spent. -/
def vacant (spent : Nat) : Session := start (.standard "/home/user") [] .missing false ⟨spent⟩

/-- A list of containers is put in and entered, and then a text is put in its place. -/
theorem editsWithin_run_replaced :
    (vacant 2).BringsApart [.set "x" (.list [.node (box 0), .node (box 1)]) "list", .navigate "x",
      .enter (Supply.idOf 0), .set "x" .null "text"] ∧
    ((vacant 2).run [.set "x" (.list [.node (box 0), .node (box 1)]) "list", .navigate "x",
      .enter (Supply.idOf 0), .set "x" .null "text"]).EditsWithin := by
  have hids : Forest.IsIdentified [] ⟨2⟩ := ⟨List.nodup_nil, fun _ _ ↦ List.not_mem_nil⟩
  have hboxes : (Payload.branch .list [box 0, box 1]).IsApart (Supply.IsSpent ⟨2⟩) := by
    refine .branch ?_ ?_ ?_
    · decide
    · exact List.forall_mem_cons.2 ⟨Supply.isSpent_idOf (by decide),
        List.forall_mem_singleton.2 (Supply.isSpent_idOf (by decide))⟩
    · have hbare (i : Nat) : (box i).payload.IsBare := rfl
      exact List.forall_mem_cons.2 ⟨(hbare 0).isApart _,
        List.forall_mem_singleton.2 ((hbare 1).isApart _)⟩
  have hcalls : (vacant 2).BringsApart [.set "x" (.list [.node (box 0), .node (box 1)]) "list",
      .navigate "x", .enter (Supply.idOf 0), .set "x" .null "text"] := by
    refine ⟨fun payload h ↦ ?_, trivial, trivial, fun payload h ↦ ?_, trivial⟩
    · obtain rfl := Except.ok.inj h
      exact hboxes
    · obtain rfl := Except.ok.inj h
      exact .leaf _
  exact ⟨hcalls, @editsWithin_run (vacant 2) _ hids hcalls⟩

/-- A list that holds one container twice gives two siblings one identity. What is added to one of
them is added to both. -/
theorem exists_added_twice : (vacant 1).root.IsIdentified (vacant 1).supply ∧
    ¬ ((vacant 1).run [.set "x" (.list [.node (box 0), .node (box 0)]) "list", .navigate "x",
      .enter (Supply.idOf 0)]).EditsWithin := by
  refine ⟨⟨List.nodup_nil, fun _ _ ↦ List.not_mem_nil⟩, fun h ↦ ?_⟩
  obtain ⟨changed, hreplaces⟩ := (h.only (.add "y" "text" .null) trivial).some [] rfl
  obtain ⟨more, hold, hnew⟩ := hreplaces.exists_reached
  obtain rfl : [[]] = more := (List.cons.inj hold).2
  have hlength := congrArg (List.map List.length) (List.cons.inj hnew).2
  revert hlength
  decide

end Session

end KeyTree
