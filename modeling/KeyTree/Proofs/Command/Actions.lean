import KeyTree.Command.Note
import KeyTree.Proofs.Session.Identity
import KeyTree.Proofs.Session.Twins
import KeyTree.Proofs.Tree.Put

/-!
# Replies to actions

An action gets the same reply from two sessions that cannot be told apart, and leaves two that
cannot be told apart, unless the slot of the first one refuses the new tree. It does not matter where
the sessions have moved before, for an action starts from the root. Notes about actions are for those
only who ask for them.
-/

namespace KeyTree

/-! ## Lines -/

namespace Command

open Session

variable {E : String → String → Prop} {indent : Int} {s t : Session}

/-- Whether an action fails because the slot refuses its tree. -/
def Reply.isUnsaved : Reply → Bool
  | failed fault => fault.isSlot
  | _ => false

theorem Reply.isUnsaved_ofFault {fault : SessionFault} (h : fault.isSlot = false) :
    (ofFault fault).isUnsaved = false := by
  unfold ofFault
  split
  case isTrue => rfl
  case isFalse => exact h

theorem Reply.isUnsaved_ofEvaluation (result : Evaluation) :
    (ofEvaluation result).isUnsaved = false := by
  cases result <;> rfl

theorem Reply.isUnsaved_ofOutcome (path : String) (outcome : Outcome) :
    (ofOutcome path outcome).isUnsaved = false := by
  cases outcome <;> rfl

/-- How an action ends for one session and for the other. -/
inductive Answers (E : String → String → Prop) (indent : Int) :
    Reply × Session → Reply × Session → Prop
  | same {reply : Reply} (hreply : reply.isUnsaved = false) {s t : Session}
      (h : Twins E indent s t) :
      Answers E indent (reply, s) (reply, t)
  /-- The slot refuses a tree that nests too deeply, which the other session takes over. -/
  | unsaved {fault : SlotFault} {reply : Reply} {s t : Session}
      (hdeep : encodingLimit < Forest.height t.root) :
      Answers E indent (.failed (.slot fault), s) (reply, t)

theorem answers_failed {fault : SessionFault} (hfault : fault.isSlot = false)
    (h : Twins E indent s t) : Answers E indent (.failed fault, s) (.failed fault, t) := by
  have hreply : (Reply.failed fault).isUnsaved = false := hfault
  exact .same hreply h

theorem answers_ofFault {fault : SessionFault} (hfault : fault.isSlot = false)
    (h : Twins E indent s t) : Answers E indent (.ofFault fault, s) (.ofFault fault, t) :=
  .same (Reply.isUnsaved_ofFault hfault) h

namespace Action

theorem not_holdsNode_rawValue (kind : Kind) (value : String) :
    ¬ (rawValue kind value).HoldsNode := by
  unfold rawValue
  split
  case isTrue =>
    intro h
    cases h
  case isFalse =>
    intro h
    cases h

theorem answers_listed {nodes nodes' : List Node} (h : Twins E indent s t) (title : String)
    (hnodes : Forest.Twins E nodes nodes') :
    Answers E indent (listed s title nodes) (listed t title nodes') := by
  have hstep := h.listing title hnodes
  unfold listed
  generalize s.listing title nodes = step at hstep ⊢
  generalize t.listing title nodes' = step' at hstep ⊢
  cases hstep with
  | refused hfault h => exact answers_failed hfault h
  | unsaved hdeep => exact .unsaved hdeep
  | done htext h =>
    obtain rfl := htext
    exact .same rfl h

theorem answers_displayed {n m : Node} (h : Twins E indent s t) (hnm : n.Twin E m) :
    Answers E indent (displayed s n) (displayed t m) := by
  have hstep := h.display hnm
  unfold displayed
  generalize s.display n = step at hstep ⊢
  generalize t.display m = step' at hstep ⊢
  cases hstep with
  | refused hfault h => exact answers_failed hfault h
  | unsaved hdeep => exact .unsaved hdeep
  | done htext h =>
    obtain rfl := htext
    exact .same rfl h

theorem answers_evaluated {step step' : Session.Step Evaluation} (h : Meets E indent Eq step step') :
    Answers E indent (evaluated step) (evaluated step') := by
  cases h with
  | refused hfault h => exact answers_failed hfault h
  | unsaved hdeep => exact .unsaved hdeep
  | done hresult h =>
    obtain rfl := hresult
    exact .same (Reply.isUnsaved_ofEvaluation _) h

theorem answers_performList (h : Twins E indent s t) (path : String) :
    Answers E indent (performList s path) (performList t path) := by
  unfold performList
  split
  case isTrue => exact answers_listed h rootTitle h.root
  case isFalse =>
    rcases h.get? path with ⟨fault, hx, hy⟩ | ⟨x, y, hx, hy, hxy⟩
    · rw [hx, hy]
      exact .same rfl h
    · rw [hx, hy]
      cases hxy with
      | none => exact .same rfl h
      | @some n m hnm =>
        dsimp only
        rcases none_or_some_of_rel hnm.children? with
          ⟨hn, hm⟩ | ⟨children, children', hn, hm, hchildren⟩
        · rw [hn, hm]
          exact answers_displayed h hnm
        · rw [hn, hm]
          exact answers_listed h path hchildren

theorem answers_performAdd (hE : IsPairing E) (h : Twins E indent s t) (name value : String)
    (kind : Kind) (container : String) :
    Answers E indent (performAdd s name value kind container)
      (performAdd t name value kind container) := by
  unfold performAdd
  rcases h.navigate container with ⟨fault, hfault, hs, ht⟩ | ⟨scope, scope', hscope, hs, ht⟩
  · rw [hs, ht]
    exact answers_ofFault hfault h
  · rw [hs, ht]
    have hmoved : Twins E indent { s with scope := scope } { t with scope := scope' } := { h with }
    have hstep := hmoved.add hE hscope name kind.name (not_holdsNode_rawValue kind value)
    dsimp only
    generalize Session.add { s with scope := scope } _ _ _ = step at hstep ⊢
    generalize Session.add { t with scope := scope' } _ _ _ = step' at hstep ⊢
    cases hstep with
    | refused hfault h => exact answers_ofFault hfault h
    | unsaved hdeep => exact .unsaved hdeep
    | done hnm h =>
      dsimp only
      rw [hnm.name_eq, hnm.kind_eq]
      exact .same rfl h

theorem answers_performEdit (hE : IsPairing E) (h : Twins E indent s t) (path value : String) :
    Answers E indent (performEdit s path value) (performEdit t path value) := by
  unfold performEdit
  rcases h.locate path with
    ⟨fault, hfault, hs, ht⟩ | ⟨hs, ht⟩ | ⟨n, m, scope, scope', hnm, hscope, hs, ht⟩
  · rw [hs, ht]
    exact answers_ofFault hfault h
  · rw [hs, ht]
    exact .same rfl h
  · rw [hs, ht]
    have hmoved : Twins E indent { s with scope := scope } { t with scope := scope' } := { h with }
    have hvalue : ¬ (Raw.text value).HoldsNode := fun h ↦ by cases h
    have hstep := hmoved.edit hE hscope hnm.id hvalue
    dsimp only
    generalize Session.edit { s with scope := scope } _ _ = step at hstep ⊢
    generalize Session.edit { t with scope := scope' } _ _ = step' at hstep ⊢
    cases hstep with
    | refused hfault h => exact answers_ofFault hfault h
    | @unsaved fault s t y hdeep => exact .unsaved hdeep
    | done hdone h => exact .same rfl h

theorem answers_performDelete (hE : IsPairing E) (h : Twins E indent s t) (path : String) :
    Answers E indent (performDelete s path) (performDelete t path) := by
  unfold performDelete
  rcases h.locate path with
    ⟨fault, hfault, hs, ht⟩ | ⟨hs, ht⟩ | ⟨n, m, scope, scope', hnm, hscope, hs, ht⟩
  · rw [hs, ht]
    exact answers_failed hfault h
  · rw [hs, ht]
    exact .same rfl h
  · rw [hs, ht]
    have hmoved : Twins E indent { s with scope := scope } { t with scope := scope' } := { h with }
    have hstep := hmoved.remove hE hscope hnm.id
    dsimp only
    generalize Session.remove { s with scope := scope } _ = step at hstep ⊢
    generalize Session.remove { t with scope := scope' } _ = step' at hstep ⊢
    cases hstep with
    | refused hfault h => exact answers_failed hfault h
    | unsaved hdeep => exact .unsaved hdeep
    | done hdone h => exact .same rfl h

theorem answers_trigger (library : UrlLibrary) (h : Twins E indent s t) (link : String) :
    Answers E indent (perform library s (.trigger link)) (perform library t (.trigger link)) := by
  have hstep := h.useLink (Trigger.takeLink library link)
  unfold perform openLink
  dsimp only
  generalize s.useLink (Trigger.takeLink library link) = step at hstep ⊢
  generalize t.useLink (Trigger.takeLink library link) = step' at hstep ⊢
  cases hstep with
  | refused hfault h => exact answers_ofFault hfault h
  | @unsaved fault s t effect hdeep =>
    obtain ⟨⟨root, outcome, message⟩, rest⟩ := effect
    cases message with
    | none => exact .unsaved hdeep
    | some message => exact .unsaved hdeep
  | @done effect effect' s t hmessage h =>
    obtain ⟨⟨root, outcome, message⟩, rest⟩ := effect
    obtain ⟨⟨root', outcome', message'⟩, rest'⟩ := effect'
    obtain rfl : message = message' := hmessage
    cases message with
    | none => exact .same rfl h
    | some message => exact .same rfl h

/-- Every action gets the same reply, unless a tree nests too deeply. -/
theorem answers_perform (library : UrlLibrary) (hE : IsPairing E) (h : Twins E indent s t)
    (action : Action) :
    Answers E indent (action.perform library s) (action.perform library t) := by
  cases action with
  | list path => exact answers_performList h path
  | value path => exact answers_evaluated (h.evaluate path)
  | evaluate formula => exact answers_evaluated (h.evaluateFormula formula)
  | set path text kind =>
    have hstep := h.set path kind.name (not_holdsNode_rawValue kind text)
    unfold perform
    dsimp only
    generalize s.set path _ _ = step at hstep ⊢
    generalize t.set path _ _ = step' at hstep ⊢
    cases hstep with
    | refused hfault h => exact answers_ofFault hfault h
    | unsaved hdeep => exact .unsaved hdeep
    | done houtcome h =>
      obtain rfl := houtcome
      exact .same (Reply.isUnsaved_ofOutcome path _) h
  | add name text kind container => exact answers_performAdd hE h name text kind container
  | edit path text => exact answers_performEdit hE h path text
  | delete path => exact answers_performDelete hE h path
  | exportText =>
    unfold perform
    dsimp only
    rw [h.exportText_eq, Session.exportText]
    by_cases hfits : t.root.isExportable = true
    · rw [if_pos hfits]
      exact .same rfl h
    · rw [if_neg hfits]
      exact answers_failed rfl h
  | importText document =>
    have hstep := h.importSource (.text document)
    unfold perform
    dsimp only
    generalize s.importSource _ = step at hstep ⊢
    generalize t.importSource _ = step' at hstep ⊢
    cases hstep with
    | refused hfault h => exact answers_ofFault hfault h
    | unsaved hdeep => exact .unsaved hdeep
    | done hdone h => exact .same rfl h
  | trigger link => exact answers_trigger library h link

/-! ## What an action does to a session -/

/-- Where a session has moved has no part in what a step does to it. -/
theorem follows_of_scope {s s' : Session} {scope : Scope}
    (h : Follows { s with scope := scope } s') : Follows s s' where
  root := h.root
  isKept := h.isKept
  keeping := by
    cases h.keeping with
    | unchanged hroot hslot hsaves => exact .unchanged hroot hslot hsaves
    | kept hslot hslot' hsaves => exact .kept hslot hslot' hsaves
    | lost hfault hslot hsaves => exact .lost hfault hslot hsaves
    | unkept hkept hslot hsaves => exact .unkept hkept hslot hsaves

theorem exists_scope_of_locate (s : Session) (path : String) :
    ∃ scope, (s.locate path).2 = { s with scope := scope } := by
  unfold Session.locate
  rcases s.get? path with fault | found | n
  · exact ⟨s.scope, rfl⟩
  · exact ⟨s.scope, rfl⟩
  · dsimp only [Session.navigate]
    rcases s.root.scopeOf? (Path.containerText path) with fault | found | scope
    · exact ⟨s.scope, rfl⟩
    · exact ⟨s.scope, rfl⟩
    · exact ⟨scope, rfl⟩

theorem follows_of_locate {s' : Session} {path : String} (h : Follows (s.locate path).2 s') :
    Follows s s' := by
  obtain ⟨scope, hscope⟩ := exists_scope_of_locate s path
  exact follows_of_scope (hscope ▸ h)

theorem root_locate (s : Session) (path : String) : (s.locate path).2.root = s.root := by
  obtain ⟨scope, hscope⟩ := exists_scope_of_locate s path
  rw [hscope]

theorem follows_withCache (s : Session) (cache : Arithmetic.Cache) :
    Follows s { s with cache := cache } := .still rfl s.supply.skip_zero.symm rfl rfl rfl

theorem follows_listed (s : Session) (title : String) (nodes : Forest) :
    Follows s (listed s title nodes).2 := by
  unfold listed Session.listing
  rcases Listing.text s.cache s.root title nodes with ⟨fault | text, cache⟩
  · exact follows_withCache s cache
  · exact follows_withCache s cache

theorem follows_displayed (s : Session) (n : Node) : Follows s (displayed s n).2 := by
  unfold displayed Session.display
  rcases n.display s.cache s.root with ⟨fault | text, cache⟩
  · exact follows_withCache s cache
  · exact follows_withCache s cache

/-- Asking for a value fills the cache at most. -/
theorem exists_cache_of_evaluate (s : Session) (path : String) :
    ∃ cache, (s.evaluate path).2 = { s with cache := cache } := by
  unfold Session.evaluate
  rcases s.get? path with fault | found | n
  · exact ⟨s.cache, rfl⟩
  · exact ⟨s.cache, rfl⟩
  · dsimp only
    split
    case h_1 formula _ => exact ⟨_, rfl⟩
    case h_2 => exact ⟨_, rfl⟩

theorem follows_evaluate (s : Session) (path : String) : Follows s (s.evaluate path).2 := by
  obtain ⟨cache, hcache⟩ := exists_cache_of_evaluate s path
  rw [hcache]
  exact follows_withCache s cache

theorem evaluated_snd (step : Session.Step Evaluation) : (evaluated step).2 = step.2 := by
  rcases step with ⟨fault | result, s⟩
  · rfl
  · rfl

theorem follows_performList (s : Session) (path : String) : Follows s (performList s path).2 := by
  unfold performList
  split
  case isTrue => exact follows_listed s rootTitle s.root
  case isFalse =>
    rcases s.get? path with fault | found | n
    · exact .refl s
    · exact .refl s
    · dsimp only
      split
      case h_1 children _ => exact follows_listed s path children
      case h_2 => exact follows_displayed s n

theorem follows_performAdd (hids : (Forest.ids s.root).Nodup) (name value : String) (kind : Kind)
    (container : String) : Follows s (performAdd s name value kind container).2 := by
  unfold performAdd Session.navigate
  rcases s.root.scopeOf? container with fault | found | scope
  · exact .refl s
  · exact .refl s
  · have hstep : Follows { s with scope := scope }
        (Session.add { s with scope := scope } name kind.name (rawValue kind value)).2 :=
      follows_add hids (not_holdsNode_rawValue kind value)
    dsimp only
    generalize Session.add { s with scope := scope } _ _ _ = step at hstep ⊢
    rcases step with ⟨fault | n, s'⟩
    · exact follows_of_scope hstep
    · exact follows_of_scope hstep

theorem follows_performEdit (hids : (Forest.ids s.root).Nodup) (path value : String) :
    Follows s (performEdit s path value).2 := by
  apply follows_of_locate
  rw [← root_locate s path] at hids
  unfold performEdit
  generalize s.locate path = located at hids ⊢
  rcases located with ⟨fault | found | n, s'⟩
  · exact .refl s'
  · exact .refl s'
  · have hstep : Follows s' (s'.edit n.id (.text value)).2 :=
      follows_edit hids fun h ↦ by cases h
    dsimp only
    generalize s'.edit n.id (.text value) = step at hstep ⊢
    rcases step with ⟨fault | done, s''⟩
    · exact hstep
    · exact hstep

theorem follows_performDelete (hids : (Forest.ids s.root).Nodup) (path : String) :
    Follows s (performDelete s path).2 := by
  apply follows_of_locate
  rw [← root_locate s path] at hids
  unfold performDelete
  generalize s.locate path = located at hids ⊢
  rcases located with ⟨fault | found | n, s'⟩
  · exact .refl s'
  · exact .refl s'
  · have hstep : Follows s' (s'.remove n.id).2 := follows_remove hids
    dsimp only
    generalize s'.remove n.id = step at hstep ⊢
    rcases step with ⟨fault | done, s''⟩
    · exact hstep
    · exact hstep

/-- An action edits the tree, imports a tree or leaves it. -/
theorem follows_perform (library : UrlLibrary) (hids : (Forest.ids s.root).Nodup)
    (action : Action) :
    Follows s (action.perform library s).2 := by
  cases action with
  | list path => exact follows_performList s path
  | value path => exact evaluated_snd _ ▸ follows_evaluate s path
  | evaluate formula => exact evaluated_snd _ ▸ follows_withCache s _
  | set path text kind =>
    have hstep : Follows s (s.set path (rawValue kind text) kind.name).2 :=
      follows_set (not_holdsNode_rawValue kind text)
    unfold perform
    dsimp only
    generalize s.set path (rawValue kind text) kind.name = step at hstep ⊢
    rcases step with ⟨fault | outcome, s'⟩
    · exact hstep
    · exact hstep
  | add name text kind container => exact follows_performAdd hids name text kind container
  | edit path text => exact follows_performEdit hids path text
  | delete path => exact follows_performDelete hids path
  | exportText =>
    unfold perform
    dsimp only
    cases s.exportText <;> exact .refl s
  | importText document =>
    have hstep : Follows s (s.importSource (.text document)).2 :=
      follows_replace fun root supply h ↦ Forest.ofSource_spec h
    unfold perform
    dsimp only
    generalize s.importSource (.text document) = step at hstep ⊢
    rcases step with ⟨fault | done, s'⟩
    · exact hstep
    · exact hstep
  | trigger link =>
    have hstep := follows_useLink s (Trigger.takeLink library link)
    unfold perform openLink
    dsimp only
    generalize s.useLink (Trigger.takeLink library link) = step at hstep ⊢
    rcases step with ⟨fault | ⟨⟨root, outcome, _ | message⟩, rest⟩, s'⟩
    · exact hstep
    · exact hstep
    · exact hstep

/-! ## Reading what was put -/

end Action

/-! ## Notes -/

namespace Note

/-- A note that is shown to those only who ask for all notes. -/
def IsQuiet (note : Note) : Prop := note.isShown false = false

theorem isQuiet_of_mem_ofFormula {root : Forest} {formula : String} {note : Note}
    (h : note ∈ ofFormula root formula) : note.IsQuiet := by
  unfold ofFormula at h
  split at h
  · obtain rfl := List.mem_singleton.1 h
    rfl
  · cases h

theorem isQuiet_of_mem_ofShown {root : Forest} {nodes : List Node} {note : Note}
    (h : note ∈ ofShown root nodes) : note.IsQuiet := by
  obtain ⟨formula, -, hnote⟩ := List.mem_flatMap.1 h
  exact isQuiet_of_mem_ofFormula hnote

theorem isQuiet_of_mem_ofTrigger {params : Trigger.Params} {note : Note}
    (h : note ∈ ofTrigger s params) : note.IsQuiet := by
  unfold ofTrigger at h
  dsimp only at h
  split at h
  case h_1 key kind effect supply _ _ _ =>
    split at h
    case h_1 =>
      rcases List.mem_pair.1 h with rfl | rfl
      · rfl
      · rfl
    case h_2 =>
      obtain rfl := List.mem_singleton.1 h
      rfl
    case h_3 => cases h
  case h_2 => cases h

theorem isQuiet_of_mem_beforeSave {library : UrlLibrary} {action : Action} {note : Note}
    (h : note ∈ beforeSave library s action) : note.IsQuiet := by
  unfold beforeSave at h
  cases action with
  | list path =>
    dsimp only at h
    split at h
    case isTrue => exact isQuiet_of_mem_ofShown h
    case isFalse =>
      split at h
      case h_1 => exact isQuiet_of_mem_ofShown h
      case h_2 => cases h
  | value path =>
    dsimp only at h
    split at h
    case h_1 => exact isQuiet_of_mem_ofFormula h
    case h_2 => cases h
  | evaluate formula => exact isQuiet_of_mem_ofFormula h
  | set path value kind =>
    dsimp only at h
    split at h
    case h_1 =>
      obtain rfl := List.mem_singleton.1 h
      rfl
    case h_2 => cases h
  | importText document =>
    dsimp only at h
    split at h
    case h_1 =>
      obtain ⟨name, -, rfl⟩ := List.mem_map.1 h
      rfl
    case h_2 => cases h
  | trigger link =>
    dsimp only at h
    split at h
    case h_1 =>
      rcases List.mem_cons.1 h with rfl | h
      · rfl
      · exact isQuiet_of_mem_ofTrigger h
    case h_2 => cases h
  | add | edit | delete | exportText => cases h

/-- Nothing is noted about an action that all are to know. -/
theorem isQuiet_of_mem_ofAction {library : UrlLibrary} {path : String} {action : Action}
    {note : Note} (h : note ∈ ofAction library path s action) : note.IsQuiet := by
  unfold ofAction afterSave at h
  dsimp only at h
  rw [List.mem_append, List.mem_append] at h
  rcases h with (h | h) | h
  · exact isQuiet_of_mem_beforeSave h
  · split at h
    case isTrue =>
      obtain rfl := List.mem_singleton.1 h
      rfl
    case isFalse => cases h
  · split at h
    case h_1 =>
      split at h
      case h_1 =>
        obtain ⟨message, -, rfl⟩ := List.mem_map.1 h
        rfl
      case h_2 => cases h
    case h_2 => cases h

end Note

end Command

end KeyTree
