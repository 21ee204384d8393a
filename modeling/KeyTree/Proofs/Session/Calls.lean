import KeyTree.Proofs.Document.Import
import KeyTree.Proofs.Tree.Edits
import KeyTree.Proofs.Tree.Put
import KeyTree.Session

/-!
# Calls of a session

A session is used through calls, some of which are refused. What a call does to the tree is an edit
of it or an import, and what it does to the slot is to keep the new tree in it. All that runs of
calls preserve follows from this.
-/

namespace KeyTree

/-- A call that can change the tree or the scope of a session. -/
inductive Call where
  | set (path : String) (value : Raw) (kindName : String)
  | applyTrigger (params : Trigger.Params)
  | openLink (library : UrlLibrary) (link : String)
  | add (name kindName : String) (value : Raw)
  | edit (id : String) (value : Raw)
  | remove (id : String)
  | enter (id : String)
  | navigate (path : String)
  | up (levels : Int)
  | importSource (source : Json.Source)
  | importDocument (document : Raw)

namespace Session

/-- A step without its result. -/
def Step.ignore {α : Type} (step : Step α) : Step Unit := (step.1.map fun _ ↦ (), step.2)

/-- What a call does, and whether it is refused. -/
def perform (s : Session) : Call → Step Unit
  | .set path value kindName => (s.set path value kindName).ignore
  | .applyTrigger params => (s.applyTrigger params).ignore
  | .openLink library link => (s.openLink library link).ignore
  | .add name kindName value => (s.add name kindName value).ignore
  | .edit id value => s.edit id value
  | .remove id => s.remove id
  | .enter id => s.enter id
  | .navigate path => s.navigate path
  | .up levels => (.ok (), s.up levels)
  | .importSource source => s.importSource source
  | .importDocument document => s.importDocument document

/-- The session after some calls, of which any may be refused. -/
def run (s : Session) (calls : List Call) : Session :=
  calls.foldl (fun s call ↦ (s.perform call).2) s

end Session

/-- A call whose raw value holds no nodes, or whose document gives different names. -/
def Call.IsPlain : Call → Prop
  | set _ value _ => ¬ value.HoldsNode
  | add _ _ value => ¬ value.HoldsNode
  | edit _ value => ¬ value.HoldsNode
  | importDocument document => document.HasUniqueNames
  | _ => True

namespace Forest

/-- A tree that a call can put in place of a tree: an edit of it, or one with new identities. -/
inductive Successor (issued : List String) (old : Forest) : Forest → Prop
  | edited {new : Forest} (h : Change issued .dictionary old new) : Successor issued old new
  | imported {new : Forest} (hnames : new.HasUniqueNames) (hids : ids new = issued) :
      Successor issued old new

theorem Successor.refl (issued : List String) (root : Forest) : Successor issued root root :=
  .edited (.refl .dictionary root)

theorem Successor.hasUniqueNames {issued : List String} {old new : Forest}
    (h : Successor issued old new) (hold : old.HasUniqueNames) : new.HasUniqueNames := by
  cases h with
  | edited h => exact h.hasUniqueNamesAs hold
  | imported hnames hids => exact hnames

theorem Successor.ids_le {issued : List String} {old new : Forest}
    (h : Successor issued old new) :
    (ids new : Multiset String) ≤ (ids old : Multiset String) + issued := by
  cases h with
  | edited h => exact h.ids_le
  | imported hnames hids =>
    rw [hids]
    exact Multiset.le_add_left _ _

end Forest

/-- A slot takes a tree unless a directory occupies it or the tree nests too deeply. -/
theorem Slot.save_spec (slot : Slot) (root : Forest) :
    (slot ≠ .directory ∧ slot.save root = .ok (.ofText root.recordText)) ∨
      (slot = .directory ∨ encodingLimit < Forest.height root) ∧
        ∃ fault, slot.save root = .error fault := by
  unfold Slot.save
  split
  case isTrue hdeep => exact .inr ⟨.inr hdeep, _, rfl⟩
  case isFalse =>
    cases slot with
    | directory => exact .inr ⟨.inl rfl, _, rfl⟩
    | missing | file => exact .inl ⟨Slot.noConfusion, rfl⟩

namespace Session

/-- What happens to the slot while a tree takes the place of another. -/
inductive Keeping (s s' : Session) : Prop
  | unchanged (hroot : s'.root = s.root) (hslot : s'.slot = s.slot) (hsaves : s'.saves = s.saves)
  | kept (hslot : s.slot ≠ .directory) (hslot' : s'.slot = .ofText s'.root.recordText)
      (hsaves : s'.saves = s.saves + 1)
  | lost {fault : SlotFault} (hfault : s.slot.save s'.root = .error fault) (hslot : s'.slot = s.slot)
      (hsaves : s'.saves = s.saves + 1)
  | unkept (hkept : s.isKept = false) (hslot : s'.slot = s.slot) (hsaves : s'.saves = s.saves)

/-- What a call can do to a session, apart from the scope. -/
structure Follows (s s' : Session) : Prop where
  root : ∃ count, s'.supply = s.supply.skip count ∧
    Forest.Successor (s.supply.issued count) s.root s'.root
  isKept : s'.isKept = s.isKept
  keeping : Keeping s s'

/-! ## Taking over a tree -/

/-- What looks at the tree or moves the scope keeps everything else. -/
theorem Follows.still {s s' : Session} {count : Nat} (hroot : s'.root = s.root)
    (hsupply : s'.supply = s.supply.skip count) (hkept : s'.isKept = s.isKept)
    (hslot : s'.slot = s.slot) (hsaves : s'.saves = s.saves) : Follows s s' where
  root := ⟨count, hsupply, hroot ▸ Forest.Successor.refl _ _⟩
  isKept := hkept
  keeping := .unchanged hroot hslot hsaves

theorem Follows.refl (s : Session) : Follows s s :=
  .still rfl s.supply.skip_zero.symm rfl rfl rfl

theorem Follows.withScope {s s' : Session} (h : Follows s s') (scope : Scope) :
    Follows s { s' with scope := scope } where
  root := h.root
  isKept := h.isKept
  keeping := by
    cases h.keeping with
    | unchanged hroot hslot hsaves => exact .unchanged hroot hslot hsaves
    | kept hslot hslot' hsaves => exact .kept hslot hslot' hsaves
    | lost hfault hslot hsaves => exact .lost hfault hslot hsaves
    | unkept hkept hslot hsaves => exact .unkept hkept hslot hsaves

theorem save_of_not_isKept {s : Session} (h : s.isKept = false) : s.save = (.ok (), s) := by
  unfold save
  rw [if_neg (Bool.not_eq_true _ ▸ h)]

theorem save_of_error {s : Session} {fault : SlotFault} (hkept : s.isKept = true)
    (hfault : s.slot.save s.root = .error fault) :
    s.save = (.error (.slot fault), { s with saves := s.saves + 1 }) := by
  unfold save
  rw [if_pos hkept]
  dsimp only
  rw [hfault]

theorem save_of_ok {s : Session} {slot : Slot} (hkept : s.isKept = true)
    (hslot : s.slot.save s.root = .ok slot) :
    s.save = (.ok (), { s with saves := s.saves + 1, slot := slot }) := by
  unfold save
  rw [if_pos hkept]
  dsimp only
  rw [hslot]

theorem commit_eq_save (s : Session) {root : Forest} (h : root ≠ []) :
    s.commit root = { s with root := root }.save := by
  rw [commit, List.isEmpty_eq_false_iff.2 h, Bool.and_false, if_neg Bool.false_ne_true]

/-- Taking over a tree that may follow, and saving it. -/
theorem follows_save {s : Session} {count : Nat} {root : Forest}
    (h : Forest.Successor (s.supply.issued count) s.root root) :
    Follows s (save { s with supply := s.supply.skip count, root := root }).2 := by
  let t : Session := { s with supply := s.supply.skip count, root := root }
  change Follows s t.save.2
  by_cases hkept : s.isKept = true
  · rcases Slot.save_spec s.slot root with ⟨hslot, hok⟩ | ⟨-, fault, hfault⟩
    · have hsave : t.save = _ := save_of_ok hkept hok
      rw [hsave]
      exact ⟨⟨count, rfl, h⟩, rfl, .kept hslot rfl rfl⟩
    · have hsave : t.save = _ := save_of_error hkept hfault
      rw [hsave]
      exact ⟨⟨count, rfl, h⟩, rfl, .lost hfault rfl rfl⟩
  · rw [Bool.not_eq_true] at hkept
    have hsave : t.save = _ := save_of_not_isKept hkept
    rw [hsave]
    exact ⟨⟨count, rfl, h⟩, rfl, .unkept hkept rfl rfl⟩

theorem follows_commit {s : Session} {count : Nat} {root : Forest}
    (h : Forest.Successor (s.supply.issued count) s.root root) :
    Follows s ({ s with supply := s.supply.skip count }.commit root).2 := by
  unfold commit
  split
  case isTrue => exact .still rfl rfl rfl rfl rfl
  case isFalse => exact follows_save h

/-- Taking over a tree without new identities. -/
theorem follows_commit_edited {s : Session} {root : Forest}
    (h : Forest.Change [] .dictionary s.root root) : Follows s (s.commit root).2 := by
  have hcommit : Follows s ({ s with supply := s.supply.skip 0 }.commit root).2 :=
    follows_commit (.edited h)
  rwa [Supply.skip_zero] at hcommit

/-! ## The calls -/

/-- What a put makes is saved if it is a change. Otherwise the tree stays as it is. -/
theorem set_spec (s : Session) (path : String) (value : Raw) (kindName : String) :
    (s.set path value kindName).2 = s ∨ ∃ p payload, Path.parse path = .ok p ∧
      coerce kindName value = .ok payload ∧
      ((s.set path value kindName).2 =
          ({ s with supply := (s.root.put s.supply p payload).2.2 }.commit
            (s.root.put s.supply p payload).1).2 ∨
        (s.set path value kindName).2 =
          { s with supply := (s.root.put s.supply p payload).2.2 }) := by
  unfold set
  cases Path.parse path with
  | error fault => exact .inl rfl
  | ok p =>
    cases hvalue : boundedCoerce callLimit kindName value with
    | error fault => exact .inl rfl
    | ok payload =>
      cases hput : s.root.boundedPut s.supply p payload with
      | error fault =>
        left
        simp only [Except.mapError, hput]
      | ok result =>
        refine .inr ⟨p, payload, rfl, coerce_of_boundedCoerce hvalue, ?_⟩
        simp only [Except.mapError, hput, Forest.put_of_boundedPut hput]
        split
        case isTrue => exact .inl rfl
        case isFalse => exact .inr rfl

theorem follows_set {s : Session} {path kindName : String} {value : Raw}
    (hvalue : ¬ value.HoldsNode) : Follows s (s.set path value kindName).2 := by
  rcases set_spec s path value kindName with hsame | ⟨p, payload, -, hcoerce, hput⟩
  · rw [hsame]
    exact .refl s
  · have hchange := Forest.change_putAlong s.supply (isBare_of_coerce hvalue hcoerce) .dictionary
      s.root p.head p.tail
    rcases hput with hput | hput
    · rw [hput]
      exact follows_commit (.edited hchange)
    · rw [hput]
      exact .still rfl rfl rfl rfl rfl

/-- What is added is put into the tree, which is saved. Otherwise the session stays as it is. -/
theorem add_spec (s : Session) (name kindName : String) (value : Raw) :
    (s.add name kindName value).2 = s ∨
      ∃ root, s.root.boundedAdd s.supply name kindName value s.scope = .ok root ∧
        (s.add name kindName value).2 = ({ s with supply := s.supply.skip 1 }.commit root).2 := by
  unfold add
  split
  case isTrue => exact .inl rfl
  case isFalse =>
    cases hadd : s.root.boundedAdd s.supply name kindName value s.scope with
    | error fault => exact .inl rfl
    | ok root =>
      dsimp only
      split
      case h_1 => exact .inl rfl
      case h_2 => exact .inr ⟨root, rfl, rfl⟩

theorem follows_add {s : Session} {name kindName : String} {value : Raw}
    (hids : (Forest.ids s.root).Nodup) (hvalue : ¬ value.HoldsNode) :
    Follows s (s.add name kindName value).2 := by
  rcases add_spec s name kindName value with hsame | ⟨root, hadd, hcommit⟩
  · rw [hsame]
    exact .refl s
  · rw [hcommit]
    exact follows_commit (.edited (Forest.change_add hids hvalue (Forest.add_of_boundedAdd hadd).2))

theorem edit_spec (s : Session) (id : String) (value : Raw) :
    (s.edit id value).2 = s ∨ ∃ root, s.root.edit id value s.scope = .ok root ∧
      (s.edit id value).2 = (s.commit root).2 := by
  unfold edit
  cases s.root.edit id value s.scope with
  | error fault => exact .inl rfl
  | ok root => exact .inr ⟨root, rfl, rfl⟩

theorem follows_edit {s : Session} {id : String} {value : Raw} (hids : (Forest.ids s.root).Nodup)
    (hvalue : ¬ value.HoldsNode) : Follows s (s.edit id value).2 := by
  rcases edit_spec s id value with hsame | ⟨root, hedit, hcommit⟩
  · rw [hsame]
    exact .refl s
  · rw [hcommit]
    exact follows_commit_edited (Forest.change_edit hids hvalue hedit)

theorem remove_spec (s : Session) (id : String) :
    (s.remove id).2 = s ∨ ∃ root, s.root.boundedDelete id s.scope = .ok root ∧
      (s.remove id).2 = (s.commit root).2 := by
  unfold remove
  cases s.root.boundedDelete id s.scope with
  | error fault => exact .inl rfl
  | ok root => exact .inr ⟨root, rfl, rfl⟩

theorem follows_remove {s : Session} {id : String} (hids : (Forest.ids s.root).Nodup) :
    Follows s (s.remove id).2 := by
  rcases remove_spec s id with hsame | ⟨root, hdelete, hcommit⟩
  · rw [hsame]
    exact .refl s
  · obtain ⟨-, rfl⟩ := Forest.delete_of_boundedDelete hdelete
    rw [hcommit]
    exact follows_commit_edited (Forest.change_delete hids)

theorem follows_enter (s : Session) (id : String) : Follows s (s.enter id).2 := by
  unfold enter
  cases s.nodes.withId? id with
  | none => exact .refl s
  | some n =>
    dsimp only
    split
    · exact (Follows.refl s).withScope _
    · exact .refl s

theorem follows_navigate (s : Session) (path : String) : Follows s (s.navigate path).2 := by
  unfold navigate
  split
  · exact .refl s
  · exact .refl s
  · exact (Follows.refl s).withScope _

/-- The raw value of a trigger holds no nodes. -/
theorem not_holdsNode_rawValue (value : String) (kind : Kind) :
    ¬ (Trigger.rawValue value kind).HoldsNode := by
  intro h
  cases kind <;> cases h

/-- A trigger without a key leaves the tree. Any other puts a payload without children at a path. -/
theorem apply_spec {supply supply' : Supply} {root : Forest} {params : Trigger.Params}
    {effect : Trigger.Effect} (h : Trigger.apply supply root params = .ok (effect, supply')) :
    (Trigger.nonempty? params "key" = none ∧ effect.root = root ∧ supply' = supply) ∨
      ∃ key path payload, Trigger.nonempty? params "key" = some key ∧ Path.parse key = .ok path ∧
        payload.IsBare ∧ effect.root = (root.put supply path payload).1 ∧
        supply' = (root.put supply path payload).2.2 := by
  unfold Trigger.apply at h
  split at h
  case h_1 hkey =>
    obtain ⟨rfl, rfl⟩ := Prod.mk.inj (Except.ok.inj h)
    exact .inl ⟨hkey, rfl, rfl⟩
  case h_2 key hkey =>
    obtain ⟨kind, -, h⟩ := exists_of_bind_eq_ok h
    obtain ⟨path, hpath, h⟩ := exists_of_bind_eq_ok h
    obtain ⟨payload, hcoerce, h⟩ := exists_of_bind_eq_ok h
    obtain ⟨_, hput, h⟩ := exists_of_bind_eq_ok h
    obtain rfl := Forest.put_of_boundedPut (eq_ok_of_mapError hput)
    obtain ⟨rfl, rfl⟩ := Prod.mk.inj (Except.ok.inj h)
    have hbare := Kind.isBare_of_coerce (not_holdsNode_rawValue _ kind) (eq_ok_of_mapError hcoerce)
    exact .inr ⟨key, path, payload, hkey, eq_ok_of_mapError hpath, hbare, rfl, rfl⟩

/-- A trigger edits the tree, with one new identity for each segment of its key at most. -/
theorem change_apply {supply supply' : Supply} {root : Forest} {params : Trigger.Params}
    {effect : Trigger.Effect} (h : Trigger.apply supply root params = .ok (effect, supply')) :
    ∃ count, supply' = supply.skip count ∧
      Forest.Change (supply.issued count) .dictionary root effect.root := by
  rcases apply_spec h with ⟨-, hroot, rfl⟩ | ⟨key, path, payload, -, -, hbare, hroot, rfl⟩
  · refine ⟨0, supply'.skip_zero.symm, ?_⟩
    rw [hroot]
    exact .refl .dictionary root
  · refine ⟨path.segments.length, rfl, ?_⟩
    rw [hroot]
    exact Forest.change_putAlong supply hbare .dictionary root path.head path.tail

/-- What a trigger makes is saved if it is a change. Otherwise the tree stays as it is. -/
theorem applyTrigger_spec (s : Session) (params : Trigger.Params) :
    (s.applyTrigger params).2 = s ∨ ∃ effect supply,
      Trigger.apply s.supply s.root params = .ok (effect, supply) ∧
      ((s.applyTrigger params).2 = ({ s with supply := supply }.commit effect.root).2 ∨
        (s.applyTrigger params).2 = { s with supply := supply }) := by
  unfold applyTrigger
  cases Trigger.apply s.supply s.root params with
  | error fault => exact .inl rfl
  | ok result =>
    obtain ⟨effect, supply⟩ := result
    refine .inr ⟨effect, supply, rfl, ?_⟩
    dsimp only
    split
    case isTrue => exact .inl rfl
    case isFalse => exact .inr rfl

theorem follows_applyTrigger (s : Session) (params : Trigger.Params) :
    Follows s (s.applyTrigger params).2 := by
  rcases applyTrigger_spec s params with hsame | ⟨effect, supply, happly, hstep⟩
  · rw [hsame]
    exact .refl s
  · obtain ⟨count, rfl, hchange⟩ := change_apply happly
    rcases hstep with hstep | hstep
    · rw [hstep]
      exact follows_commit (.edited hchange)
    · rw [hstep]
      exact .still rfl rfl rfl rfl rfl

theorem follows_useLink {Address : Type} (s : Session)
    (taken : Except UrlFault (Trigger.Link Address)) : Follows s (s.useLink taken).2 := by
  cases taken with
  | error fault => exact .refl s
  | ok taken => exact follows_applyTrigger s _

theorem follows_replace {s : Session} {imported : Except ImportFault (Forest × Supply)}
    (h : ∀ root supply, imported = .ok (root, supply) → root.HasUniqueNames ∧
      ∃ count, Forest.ids root = s.supply.issued count ∧ supply = s.supply.skip count) :
    Follows s (s.replace imported).2 := by
  unfold replace
  cases himported : imported with
  | error fault => exact .refl s
  | ok result =>
    obtain ⟨root, supply⟩ := result
    obtain ⟨hnames, count, hids, rfl⟩ := h root supply himported
    have hcommit := follows_commit (Forest.Successor.imported hnames hids)
    dsimp only
    split
    case h_1 s' hstep => exact (hstep ▸ hcommit).withScope []
    case h_2 fault s' hstep => exact hstep ▸ hcommit

/-- Every call edits the tree, imports a tree or leaves it. -/
theorem follows_perform {s : Session} {call : Call} (hids : (Forest.ids s.root).Nodup)
    (hcall : call.IsPlain) : Follows s (s.perform call).2 := by
  cases call with
  | set path value kindName => exact follows_set hcall
  | applyTrigger params => exact follows_applyTrigger s params
  | openLink library link => exact follows_useLink s _
  | add name kindName value => exact follows_add hids hcall
  | edit id value => exact follows_edit hids hcall
  | remove id => exact follows_remove hids
  | enter id => exact follows_enter s id
  | navigate path => exact follows_navigate s path
  | up levels => exact (Follows.refl s).withScope _
  | importSource source =>
    apply follows_replace
    intro root supply h
    exact Forest.ofSource_spec h
  | importDocument document =>
    apply follows_replace
    intro root supply h
    obtain ⟨hnames, hids⟩ := Forest.ofDocument_spec h
    exact ⟨hnames.2 hcall, hids⟩

end Session

end KeyTree
