import KeyTree.Proofs.Session.Runs
import KeyTree.Proofs.Tree.Kept

/-!
# Identities over a run

Every call takes the identities of new nodes from the supply, in order, and copies none. So no
identity occurs twice at any time of a run, what a call changes keeps its identity and those of the
containers around it, and an identity that has left the tree does not come back.
-/

namespace KeyTree

/-- A call whose raw value holds no nodes. -/
def Call.IsBare : Call → Prop
  | set _ value _ => ¬ value.HoldsNode
  | add _ _ value => ¬ value.HoldsNode
  | edit _ value => ¬ value.HoldsNode
  | _ => True

/-- Only documents can give names twice. -/
theorem Call.IsBare.isPlain_or {call : Call} (h : call.IsBare) :
    call.IsPlain ∨ ∃ document, call = .importDocument document := by
  cases call with
  | importDocument document => exact .inr ⟨document, rfl⟩
  | _ => exact .inl h

/-- A trigger keeps what putting at the path of its key keeps. -/
def Trigger.Keeps (params : Trigger.Params) (root new : Forest) : Prop :=
  ∀ key path, Trigger.nonempty? params "key" = some key → Path.parse key = .ok path →
    Forest.KeepsBut path root new

/-- The nodes that a call is to keep: those on its path or around its scope, and those that get
another value. An import keeps none. -/
def Call.Keeps (s s' : Session) : Call → Prop
  | set path _ _ => ∀ p, Path.parse path = .ok p → Forest.KeepsBut p s.root s'.root
  | applyTrigger params => Trigger.Keeps params s.root s'.root
  | openLink library link => ∀ taken, Trigger.takeLink library link = .ok taken →
    Trigger.Keeps (taken.params.map fun (name, value) ↦ (name, some value)) s.root s'.root
  | add _ _ _ => Forest.KeepsContainers s.scope s.root s'.root
  | remove _ => Forest.KeepsContainers s.scope s.root s'.root
  | edit _ _ => Forest.ids s'.root = Forest.ids s.root
  | enter _ => s'.root = s.root
  | navigate _ => s'.root = s.root
  | up _ => s'.root = s.root
  | importSource _ => s'.root = s.root ∨ ∀ id ∈ Forest.ids s'.root, id ∉ Forest.ids s.root
  | importDocument _ => s'.root = s.root ∨ ∀ id ∈ Forest.ids s'.root, id ∉ Forest.ids s.root

namespace Session

variable {s : Session}

/-! ## Taking over a tree -/

theorem save_spec (s : Session) : s.save.2.root = s.root ∧ s.save.2.supply = s.supply := by
  unfold save
  split
  · dsimp only
    split
    · exact ⟨rfl, rfl⟩
    · exact ⟨rfl, rfl⟩
  · exact ⟨rfl, rfl⟩

/-- Whatever the slot says, the session goes on with the new tree. -/
theorem commit_spec (s : Session) (root : Forest) :
    (s.commit root).2.root = root ∧ (s.commit root).2.supply = s.supply := by
  unfold commit
  split
  case isTrue hempty =>
    rw [Bool.and_eq_true, List.isEmpty_iff, List.isEmpty_iff] at hempty
    exact ⟨hempty.1.trans hempty.2.symm, rfl⟩
  case isFalse => exact save_spec { s with root := root }

/-- An import is refused and changes nothing, or its tree is taken over. -/
theorem replace_spec (s : Session) (imported : Except ImportFault (Forest × Supply)) :
    (s.replace imported).2 = s ∨ ∃ root supply, imported = .ok (root, supply) ∧
      (s.replace imported).2.root = root ∧ (s.replace imported).2.supply = supply := by
  unfold replace
  cases imported with
  | error fault => exact .inl rfl
  | ok result =>
    obtain ⟨root, supply⟩ := result
    refine .inr ⟨root, supply, rfl, ?_⟩
    have hcommit := commit_spec { s with supply := supply } root
    dsimp only
    split
    case h_1 s' hstep =>
      rw [hstep] at hcommit
      exact hcommit
    case h_2 fault s' hstep =>
      rw [hstep] at hcommit
      exact hcommit

/-! ## What is kept -/

theorem keepsBut_set {path kindName : String} {value : Raw} {p : Path}
    (hpath : Path.parse path = .ok p) :
    Forest.KeepsBut p s.root (s.set path value kindName).2.root := by
  rcases set_spec s path value kindName with hsame | ⟨p', payload, hpath', -, hput⟩
  · rw [hsame]
    exact Forest.KeepsBut.refl p s.root
  · obtain rfl : p = p' := Except.ok.inj (hpath.symm.trans hpath')
    rcases hput with hput | hput
    · rw [hput, (commit_spec _ _).1]
      exact Forest.keepsBut_put s.supply s.root p payload
    · rw [hput]
      exact Forest.KeepsBut.refl p s.root

theorem keeps_applyTrigger (s : Session) (params : Trigger.Params) :
    Trigger.Keeps params s.root (s.applyTrigger params).2.root := by
  intro key path hkey hpath
  rcases applyTrigger_spec s params with hsame | ⟨effect, supply, happly, hstep⟩
  · rw [hsame]
    exact Forest.KeepsBut.refl path s.root
  · rcases hstep with hstep | hstep
    · rw [hstep, (commit_spec _ _).1]
      rcases apply_spec happly with ⟨hnone, -⟩ | ⟨key', path', payload, hkey', hpath', -, hroot, -⟩
      · rw [hkey] at hnone
        cases hnone
      · obtain rfl : key = key' := Option.some.inj (hkey.symm.trans hkey')
        obtain rfl : path = path' := Except.ok.inj (hpath.symm.trans hpath')
        rw [hroot]
        exact Forest.keepsBut_put s.supply s.root path payload
    · rw [hstep]
      exact Forest.KeepsBut.refl path s.root

theorem keepsContainers_add (s : Session) (name kindName : String) (value : Raw) :
    Forest.KeepsContainers s.scope s.root (s.add name kindName value).2.root := by
  rcases add_spec s name kindName value with hsame | ⟨root, hadd, hcommit⟩
  · rw [hsame]
    exact Forest.KeepsContainers.refl s.scope s.root
  · rw [hcommit, (commit_spec _ _).1]
    exact Forest.keepsContainers_add (Forest.add_of_boundedAdd hadd).2

theorem ids_edit (s : Session) (id : String) (value : Raw) :
    Forest.ids (s.edit id value).2.root = Forest.ids s.root := by
  rcases edit_spec s id value with hsame | ⟨root, hedit, hcommit⟩
  · rw [hsame]
  · rw [hcommit, (commit_spec _ _).1]
    exact Forest.ids_edit hedit

theorem root_enter (s : Session) (id : String) : (s.enter id).2.root = s.root := by
  unfold enter
  cases s.nodes.withId? id with
  | none => rfl
  | some n =>
    dsimp only
    split
    · rfl
    · rfl

theorem root_navigate (s : Session) (path : String) : (s.navigate path).2.root = s.root := by
  unfold navigate
  split
  · rfl
  · rfl
  · rfl

/-- The nodes of an imported tree are all new. -/
theorem new_of_replace {imported : Except ImportFault (Forest × Supply)}
    (hids : s.root.IsIdentified s.supply)
    (h : ∀ root supply, imported = .ok (root, supply) →
      ∃ count, Forest.ids root = s.supply.issued count ∧ supply = s.supply.skip count) :
    (s.replace imported).2.root = s.root ∨
      ∀ id ∈ Forest.ids (s.replace imported).2.root, id ∉ Forest.ids s.root := by
  rcases replace_spec s imported with hsame | ⟨root, supply, himported, hroot, -⟩
  · exact .inl (congrArg Session.root hsame)
  · obtain ⟨count, hnew, -⟩ := h root supply himported
    right
    rw [hroot, hnew]
    intro id hid
    obtain ⟨i, -, rfl⟩ := Supply.mem_issued.1 hid
    exact hids.fresh _ (Nat.le_add_right _ _)

theorem keeps_perform (call : Call) (hids : s.root.IsIdentified s.supply) :
    call.Keeps s (s.perform call).2 := by
  cases call with
  | set path value kindName => exact fun p ↦ keepsBut_set
  | applyTrigger params => exact keeps_applyTrigger s params
  | openLink library link =>
    intro taken htaken
    change Trigger.Keeps _ s.root (s.useLink (Trigger.takeLink library link)).2.root
    rw [htaken]
    exact keeps_applyTrigger s _
  | add name kindName value => exact keepsContainers_add s name kindName value
  | edit id value => exact ids_edit s id value
  | remove id =>
    change Forest.KeepsContainers s.scope s.root (s.remove id).2.root
    rcases remove_spec s id with hsame | ⟨root, hdelete, hcommit⟩
    · rw [hsame]
      exact Forest.KeepsContainers.refl s.scope s.root
    · obtain ⟨-, rfl⟩ := Forest.delete_of_boundedDelete hdelete
      rw [hcommit, (commit_spec _ _).1]
      exact Forest.keepsContainers_delete s.root id s.scope
  | enter id => exact root_enter s id
  | navigate path => exact root_navigate s path
  | up levels => rfl
  | importSource source =>
    exact new_of_replace hids fun root supply h ↦ (Forest.ofSource_spec h).2
  | importDocument document =>
    exact new_of_replace hids fun root supply h ↦ (Forest.ofDocument_spec h).2

/-! ## What is new -/

/-- All identities of the tree were there before, or have come from the supply just now. -/
def Draws (s s' : Session) : Prop :=
  ∃ count, s'.supply = s.supply.skip count ∧
    (Forest.ids s'.root : Multiset String) ≤ (Forest.ids s.root : Multiset String) +
      s.supply.issued count

theorem Follows.draws {s' : Session} (h : Follows s s') : Draws s s' := by
  obtain ⟨count, hsupply, hroot⟩ := h.root
  exact ⟨count, hsupply, hroot.ids_le⟩

theorem draws_replace {imported : Except ImportFault (Forest × Supply)}
    (h : ∀ root supply, imported = .ok (root, supply) →
      ∃ count, Forest.ids root = s.supply.issued count ∧ supply = s.supply.skip count) :
    Draws s (s.replace imported).2 := by
  rcases replace_spec s imported with hsame | ⟨root, supply, himported, hroot, hsupply⟩
  · rw [hsame]
    exact (Follows.refl s).draws
  · obtain ⟨count, hnew, rfl⟩ := h root supply himported
    refine ⟨count, hsupply, ?_⟩
    rw [hroot, hnew]
    exact Multiset.le_add_left _ _

/-- No call puts an identity into the tree that is not new, not even an import of a document that
gives names twice. -/
theorem draws_perform {call : Call} (hids : (Forest.ids s.root).Nodup) (hcall : call.IsBare) :
    Draws s (s.perform call).2 := by
  rcases hcall.isPlain_or with hplain | ⟨document, rfl⟩
  · exact (follows_perform hids hplain).draws
  · exact draws_replace fun root supply h ↦ (Forest.ofDocument_spec h).2

theorem isIdentified_perform {call : Call} (hids : s.root.IsIdentified s.supply)
    (hcall : call.IsBare) :
    (s.perform call).2.root.IsIdentified (s.perform call).2.supply := by
  obtain ⟨count, hsupply, hroot⟩ := draws_perform hids.nodup hcall
  rw [hsupply]
  exact hids.of_le hroot

theorem isIdentified_run {calls : List Call} (hids : s.root.IsIdentified s.supply)
    (hcalls : ∀ call ∈ calls, call.IsBare) :
    (s.run calls).root.IsIdentified (s.run calls).supply := by
  induction calls generalizing s with
  | nil => exact hids
  | cons call calls ih =>
    rw [List.forall_mem_cons] at hcalls
    exact ih (isIdentified_perform hids hcalls.1) hcalls.2

/-! ## What is gone -/

/-- An identity that the supply does not give out any more, and that the tree does not have. -/
structure IsGone (id : String) (s : Session) : Prop where
  spent : ∀ i, s.supply.next ≤ i → Supply.idOf i ≠ id
  absent : id ∉ Forest.ids s.root

theorem IsGone.draws {id : String} {s' : Session} (h : IsGone id s) (hdraws : Draws s s') :
    IsGone id s' := by
  obtain ⟨count, hsupply, hroot⟩ := hdraws
  constructor
  · intro i hi
    rw [hsupply] at hi
    exact h.spent i (Nat.le_of_add_right_le hi)
  · intro hmem
    have hbefore := Multiset.mem_of_le hroot (Multiset.mem_coe.2 hmem)
    rw [Multiset.coe_add, Multiset.mem_coe, List.mem_append] at hbefore
    rcases hbefore with hold | hnew
    · exact h.absent hold
    · obtain ⟨i, -, heq⟩ := Supply.mem_issued.1 hnew
      exact h.spent _ (Nat.le_add_right _ _) heq.symm

theorem IsGone.run {id : String} {calls : List Call} (h : IsGone id s)
    (hids : s.root.IsIdentified s.supply) (hcalls : ∀ call ∈ calls, call.IsBare) :
    IsGone id (s.run calls) := by
  induction calls generalizing s with
  | nil => exact h
  | cons call calls ih =>
    rw [List.forall_mem_cons] at hcalls
    exact ih (h.draws (draws_perform hids.nodup hcalls.1)) (isIdentified_perform hids hcalls.1)
      hcalls.2

/-- What the supply has not to give out, it never has to give out again. -/
theorem next_le_run {calls : List Call} (hids : s.root.IsIdentified s.supply)
    (hcalls : ∀ call ∈ calls, call.IsBare) : s.supply.next ≤ (s.run calls).supply.next := by
  induction calls generalizing s with
  | nil => exact Nat.le_refl _
  | cons call calls ih =>
    rw [List.forall_mem_cons] at hcalls
    obtain ⟨count, hsupply, -⟩ := draws_perform hids.nodup hcalls.1
    calc
      s.supply.next ≤ (s.perform call).2.supply.next := by
        rw [hsupply]
        exact Nat.le_add_right _ _
      _ ≤ (s.run (call :: calls)).supply.next :=
        ih (isIdentified_perform hids hcalls.1) hcalls.2

theorem run_append (calls more : List Call) : s.run (calls ++ more) = (s.run calls).run more :=
  List.foldl_append

/-- An identity that has left the tree at some time of a run is gone from then on. -/
theorem isGone_run {id : String} {calls more : List Call} (hids : s.root.IsIdentified s.supply)
    (hcalls : ∀ call ∈ calls, call.IsBare) (hmem : id ∈ Forest.ids s.root)
    (habsent : id ∉ Forest.ids (s.run calls).root) (hmore : ∀ call ∈ more, call.IsBare) :
    id ∉ Forest.ids (s.run (calls ++ more)).root := by
  have hgone : IsGone id (s.run calls) := by
    refine ⟨fun i hi heq ↦ ?_, habsent⟩
    exact hids.fresh i ((next_le_run hids hcalls).trans hi) (heq ▸ hmem)
  rw [run_append]
  exact (hgone.run (isIdentified_run hids hcalls) hmore).absent

/--
Over every run of calls whose values hold no nodes, from a tree of different identities of which the
supply gives out none: the identities are different after every call, every call keeps what it is to
keep, and an identity that was in the tree and is not any more does not come back.
-/
theorem identities_run {calls : List Call} (hids : s.root.IsIdentified s.supply)
    (hcalls : ∀ call ∈ calls, call.IsBare) :
    (∀ first, first <+: calls → (Forest.ids (s.run first).root).Nodup) ∧
    (∀ first call, first ++ [call] <+: calls →
      call.Keeps (s.run first) ((s.run first).perform call).2) ∧
    (∀ first second third id, first ++ second ++ third <+: calls →
      id ∈ Forest.ids (s.run first).root → id ∉ Forest.ids (s.run (first ++ second)).root →
      id ∉ Forest.ids (s.run (first ++ second ++ third)).root) := by
  have hrun (first : List Call) (h : first <+: calls) :
      (s.run first).root.IsIdentified (s.run first).supply :=
    isIdentified_run hids fun call hmem ↦ hcalls call (h.subset hmem)
  refine ⟨fun first h ↦ (hrun first h).nodup, ?_, ?_⟩
  · intro first call h
    exact keeps_perform call (hrun first ((List.prefix_append _ _).trans h))
  · intro first second third id h hmem habsent
    rw [List.append_assoc] at h ⊢
    have hbare (call : Call) (hcall : call ∈ second ++ third) : call.IsBare :=
      hcalls call (h.subset (List.mem_append_right first hcall))
    rw [run_append] at habsent ⊢
    exact isGone_run (hrun first ((List.prefix_append _ _).trans h))
      (fun call hcall ↦ hbare call (List.mem_append_left third hcall)) hmem habsent
      fun call hcall ↦ hbare call (List.mem_append_right second hcall)

/-- A node that is made again after it was removed is another one. -/
theorem identities_run_remade :
    Supply.idOf 0 ∉ Forest.ids ((start (.standard "/home/user")
      [⟨Supply.idOf 0, "x", .leaf (.text "")⟩] .missing true ⟨1⟩).run
        [.remove (Supply.idOf 0), .set "x" .null "text"]).root := by
  have hids : Forest.IsIdentified [⟨Supply.idOf 0, "x", .leaf (.text "")⟩] ⟨1⟩ :=
    Forest.isIdentified_labelAll ⟨0⟩ [⟨"", "x", .leaf (.text "")⟩]
  have hcalls : ∀ call ∈ [Call.remove (Supply.idOf 0), .set "x" .null "text"], call.IsBare := by
    rw [List.forall_mem_cons, List.forall_mem_singleton]
    exact ⟨trivial, fun h ↦ by cases h⟩
  have hrun := @identities_run (start (.standard "/home/user")
    [⟨Supply.idOf 0, "x", .leaf (.text "")⟩] .missing true ⟨1⟩) _ hids hcalls
  refine hrun.2.2 [] [.remove (Supply.idOf 0)] [.set "x" .null "text"] _ (List.prefix_refl _) ?_ ?_
  · exact List.mem_singleton_self _
  · decide

end Session

end KeyTree
