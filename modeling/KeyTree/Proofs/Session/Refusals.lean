import KeyTree.Proofs.Session.Runs
import KeyTree.Proofs.Tree.Lookup
import KeyTree.Proofs.Tree.Put

/-!
# Refused calls

A call is checked before anything is changed, so a call that is refused leaves the session as it was.
Only the slot is asked later, when the new tree has been taken over already. If it refuses, the
session goes on with a tree that the slot does not hold. All this is seen by comparing a session with
one that keeps nothing.
-/

namespace KeyTree

/-- Whether it is the slot that refuses. -/
def SessionFault.isSlot : SessionFault → Bool
  | slot _ => true
  | _ => false

namespace Session

variable {α β : Type} {s : Session}

/-- The same session, but changes are not saved. -/
def unkept (s : Session) : Session := { s with isKept := false }

@[simp]
theorem unkept_root (s : Session) : s.unkept.root = s.root := rfl

@[simp]
theorem unkept_scope (s : Session) : s.unkept.scope = s.scope := rfl

@[simp]
theorem unkept_supply (s : Session) : s.unkept.supply = s.supply := rfl

@[simp]
theorem unkept_nodes (s : Session) : s.unkept.nodes = s.nodes := rfl

@[simp]
theorem unkept_container? (s : Session) : s.unkept.container? = s.container? := rfl

/-- The session after a tree has been taken over that the slot has refused. -/
def ahead (s : Session) (root : Forest) (supply : Supply) : Session :=
  { s with root := root, supply := supply, saves := s.saves + 1 }

/-- How a step ends, beside the same step of the session that keeps nothing. -/
inductive Ends (s : Session) : Step α → Step α → Prop
  /-- The step is refused before anything has changed. -/
  | refused {fault : SessionFault} (hfault : fault.isSlot = false) :
      Ends s (.error fault, s) (.error fault, s.unkept)
  /-- The slot refuses the tree that the other session has. -/
  | unsaved {result : α} {t : Session} {fault : SlotFault}
      (hfault : s.slot.save t.root = .error fault) :
      Ends s (.error (.slot fault), s.ahead t.root t.supply) (.ok result, t)
  | done {result : α} {s' t : Session} (hroot : s'.root = t.root) (hscope : s'.scope = t.scope) :
      Ends s (.ok result, s') (.ok result, t)

/-! ## Taking over a tree -/

theorem Ends.map {step unkept : Step α} (h : Ends s step unkept) (f : α → β) :
    Ends s (step.1.map f, step.2) (unkept.1.map f, unkept.2) := by
  cases h with
  | refused hfault => exact .refused hfault
  | unsaved hfault => exact .unsaved hfault
  | done hroot hscope => exact .done hroot hscope

theorem Ends.ite {c : Prop} [Decidable c] {step unkept step' unkept' : Step α}
    (h : Ends s step unkept) (h' : Ends s step' unkept') :
    Ends s (if c then step else step') (if c then unkept else unkept') := by
  split
  case isTrue => exact h
  case isFalse => exact h'

theorem ends_commit (s : Session) (root : Forest) (supply : Supply) :
    Ends s ({ s with supply := supply }.commit root)
      ({ s.unkept with supply := supply }.commit root) := by
  let t : Session := { s with supply := supply, root := root }
  have hunkept : t.unkept.save = (.ok (), t.unkept) := save_of_not_isKept rfl
  have hends : Ends s t.save t.unkept.save := by
    rw [hunkept]
    by_cases hkept : s.isKept = true
    · cases hsave : s.slot.save root with
      | error fault =>
        have hstep : t.save = (.error (.slot fault), s.ahead root supply) :=
          save_of_error hkept hsave
        rw [hstep]
        exact .unsaved (t := t.unkept) hsave
      | ok slot =>
        have hstep : t.save = (.ok (), { t with saves := s.saves + 1, slot := slot }) :=
          save_of_ok hkept hsave
        rw [hstep]
        exact .done rfl rfl
    · have hstep : t.save = (.ok (), t) := save_of_not_isKept (Bool.not_eq_true _ ▸ hkept)
      rw [hstep]
      exact .done rfl rfl
  -- Whether there is anything to take over depends on the trees alone.
  exact .ite (.done rfl rfl) hends

/-! ## The calls -/

theorem ends_set (s : Session) (path kindName : String) (value : Raw) :
    Ends s (s.set path value kindName) (s.unkept.set path value kindName) := by
  unfold set
  rw [unkept_root, unkept_supply]
  cases Path.parse path with
  | error fault => exact .refused rfl
  | ok p =>
    cases boundedCoerce callLimit kindName value with
    | error fault => cases fault <;> exact .refused rfl
    | ok payload =>
      simp only [Except.mapError]
      cases s.root.boundedPut s.supply p payload with
      | error fault => exact .refused rfl
      | ok result => exact .ite ((ends_commit s _ _).map _) (.done rfl rfl)

theorem ends_add (s : Session) (name kindName : String) (value : Raw) :
    Ends s (s.add name kindName value) (s.unkept.add name kindName value) := by
  unfold add
  simp only [unkept_root, unkept_scope, unkept_supply, unkept_nodes, unkept_container?]
  refine .ite (.refused rfl) ?_
  cases s.root.boundedAdd s.supply name kindName value s.scope with
  | error fault => cases fault <;> exact .refused rfl
  | ok root =>
    dsimp only
    cases (root.within s.scope).find? fun n ↦ !(s.nodes.map (·.id)).contains n.id with
    | none => exact .refused rfl
    | some n => exact (ends_commit s _ _).map _

theorem ends_edit (s : Session) (id : String) (value : Raw) :
    Ends s (s.edit id value) (s.unkept.edit id value) := by
  unfold edit
  rw [unkept_root, unkept_scope]
  cases s.root.edit id value s.scope with
  | error fault => cases fault <;> exact .refused rfl
  | ok root => exact ends_commit s root s.supply

theorem ends_remove (s : Session) (id : String) : Ends s (s.remove id) (s.unkept.remove id) := by
  unfold remove
  rw [unkept_root, unkept_scope]
  cases s.root.boundedDelete id s.scope with
  | error fault => cases fault <;> exact .refused rfl
  | ok root => exact ends_commit s root s.supply

theorem ends_enter (s : Session) (id : String) : Ends s (s.enter id) (s.unkept.enter id) := by
  unfold enter
  rw [unkept_nodes]
  cases s.nodes.withId? id with
  | none => exact .refused rfl
  | some n => exact .ite (.done rfl rfl) (.refused rfl)

theorem ends_navigate (s : Session) (path : String) :
    Ends s (s.navigate path) (s.unkept.navigate path) := by
  unfold navigate
  rw [unkept_root]
  rcases s.root.scopeOf? path with fault | none | scope
  · exact .refused rfl
  · exact .refused rfl
  · exact .done rfl rfl

theorem ends_applyTrigger (s : Session) (params : Trigger.Params) :
    Ends s (s.applyTrigger params) (s.unkept.applyTrigger params) := by
  unfold applyTrigger
  rw [unkept_root, unkept_supply]
  cases Trigger.apply s.supply s.root params with
  | error fault => exact .refused rfl
  | ok result => exact .ite ((ends_commit s _ _).map _) (.done rfl rfl)

theorem ends_useLink {Address : Type} (s : Session)
    (taken : Except UrlFault (Trigger.Link Address)) :
    Ends s (s.useLink taken) (s.unkept.useLink taken) := by
  cases taken with
  | error fault => exact .refused rfl
  | ok taken => exact (ends_applyTrigger s _).map _

theorem ends_replace (s : Session) (imported : Except ImportFault (Forest × Supply)) :
    Ends s (s.replace imported) (s.unkept.replace imported) := by
  unfold replace
  cases imported with
  | error fault => exact .refused rfl
  | ok result =>
    have hends := ends_commit s result.1 result.2
    dsimp only
    -- The scope is reset after the tree has been kept, so it stays if the slot refuses the tree.
    generalize { s with supply := result.2 }.commit result.1 = step at hends ⊢
    generalize { s.unkept with supply := result.2 }.commit result.1 = unkept at hends ⊢
    cases hends with
    | refused hfault => exact .refused hfault
    | @unsaved result t fault hfault =>
      cases result
      exact .unsaved (t := { t with scope := [] }) hfault
    | done hroot => exact .done hroot rfl

theorem ends_perform (s : Session) (call : Call) :
    Ends s (s.perform call) (s.unkept.perform call) := by
  cases call with
  | set path value kindName => exact (ends_set s path kindName value).map _
  | applyTrigger params => exact (ends_applyTrigger s params).map _
  | openLink library link => exact (ends_useLink s _).map _
  | add name kindName value => exact (ends_add s name kindName value).map _
  | edit id value => exact ends_edit s id value
  | remove id => exact ends_remove s id
  | enter id => exact ends_enter s id
  | navigate path => exact ends_navigate s path
  | up levels => exact .done rfl rfl
  | importSource source => exact ends_replace s _
  | importDocument document => exact ends_replace s _

/-- A call that is not refused does the same to tree and scope whether or not they are kept. -/
theorem perform_accepted {s' : Session} {call : Call} (h : s.perform call = (.ok (), s')) :
    ∃ t, s.unkept.perform call = (.ok (), t) ∧ s'.root = t.root ∧ s'.scope = t.scope := by
  have hends := ends_perform s call
  rw [h] at hends
  generalize s.unkept.perform call = unkept at hends
  cases hends with
  | @done result s' t hroot hscope => exact ⟨t, rfl, hroot, hscope⟩

/-! ## Refusals before the slot is asked -/

/-- Whether a call is refused, but not by the slot. -/
def refuses (s : Session) (call : Call) : Bool :=
  match (s.perform call).1 with
  | .ok _ => false
  | .error fault => !fault.isSlot

theorem perform_of_refuses {call : Call} (h : s.refuses call = true) : (s.perform call).2 = s := by
  have hends := ends_perform s call
  unfold refuses at h
  generalize s.perform call = step at hends h
  generalize s.unkept.perform call = unkept at hends
  cases hends with
  | refused => rfl
  | unsaved | done => cases h

/-- A call that is refused, but not by the slot, leaves the session exactly as it was. -/
theorem perform_refused {s' : Session} {call : Call} {fault : SessionFault}
    (h : s.perform call = (.error fault, s')) (hfault : fault.isSlot = false) : s' = s := by
  have hrefuses : s.refuses call = true := by
    unfold refuses
    rw [h]
    simp [hfault]
  have hsession := perform_of_refuses hrefuses
  rwa [h] at hsession

/-- A list in a dictionary. -/
def shelf : Forest := [
  ⟨"c", "config", .branch .dictionary [
    ⟨"t", "theme", .leaf (.text "dark")⟩,
    ⟨"l", "flags", .branch .list [⟨"f", "0", .leaf (.boolean true)⟩]⟩]⟩]

/-- A session that keeps a tree and looks at it through its dictionary. -/
def indoors : Session :=
  { start (.standard "/home/user") shelf (.ofText (Forest.recordText shelf)) true ⟨0⟩ with
    scope := ["c"] }

/-- A new value for a list, a node without a name and a trigger of no kind leave a session as it
was. -/
theorem perform_refused_indoors :
    (indoors.perform (.edit "l" (.text "x"))).2 = indoors ∧
      (indoors.perform (.add " " "text" (.text "x"))).2 = indoors ∧
      (indoors.perform (.applyTrigger [("key", some "a"), ("type", some "expression")])).2 =
        indoors := by
  have hedit : (indoors.perform (.edit "l" (.text "x"))).1 =
      .error (.edit (.container .list "flags")) := rfl
  have hadd : (indoors.perform (.add " " "text" (.text "x"))).1 = .error (.edit .blankName) := rfl
  have htrigger : (indoors.perform
      (.applyTrigger [("key", some "a"), ("type", some "expression")])).1 =
        .error (.trigger (.unsupportedType "expression")) := rfl
  exact ⟨perform_refused (Prod.ext hedit rfl) rfl, perform_refused (Prod.ext hadd rfl) rfl,
    perform_refused (Prod.ext htrigger rfl) rfl⟩

/-- The calls of a run without those that are refused, but not by the slot. -/
def taken (s : Session) : List Call → List Call
  | [] => []
  | call :: calls =>
    if s.refuses call then s.taken calls else call :: (s.perform call).2.taken calls

/-- Refused calls leave no trace on a run. -/
theorem run_taken (calls : List Call) : s.run (s.taken calls) = s.run calls := by
  induction calls generalizing s with
  | nil => rfl
  | cons call calls ih =>
    rw [taken, run_cons]
    split
    case isTrue hrefuses => rw [perform_of_refuses hrefuses, ih]
    case isFalse => rw [run_cons, ih]

/-! ## Refusals by the slot -/

/-- When the slot refuses a tree, the session goes on with the tree that the call has made, as if it
kept nothing. The slot and the scope stay as they were. -/
theorem perform_unsaved {s' : Session} {call : Call} {fault : SlotFault}
    (h : s.perform call = (.error (.slot fault), s')) :
    ∃ t, s.unkept.perform call = (.ok (), t) ∧ s.slot.save t.root = .error fault ∧
      s' = s.ahead t.root t.supply := by
  have hends := ends_perform s call
  rw [h] at hends
  generalize s.unkept.perform call = unkept at hends
  cases hends with
  | refused hfault => cases hfault
  | @unsaved result t fault hfault => exact ⟨t, rfl, hfault, rfl⟩

/-- A text is put into the tree although a directory occupies the slot. -/
theorem perform_unsaved_directory :
    ∃ t, (start (.standard "/home/user") [] .directory true ⟨0⟩).unkept.perform
        (.set "a" (.text "x") "text") = (.ok (), t) ∧
      Slot.directory.save t.root = .error .isDirectory ∧
      (start (.standard "/home/user") [] .directory true ⟨0⟩).ahead
          [⟨Supply.idOf 0, "a", .leaf (.text "x")⟩] ⟨1⟩ =
        (start (.standard "/home/user") [] .directory true ⟨0⟩).ahead t.root t.supply := by
  have hstep : (start (.standard "/home/user") [] .directory true ⟨0⟩).perform
      (.set "a" (.text "x") "text") = (.error (.slot .isDirectory),
        (start (.standard "/home/user") [] .directory true ⟨0⟩).ahead
          [⟨Supply.idOf 0, "a", .leaf (.text "x")⟩] ⟨1⟩) := rfl
  exact perform_unsaved hstep

/-- To set a path whose first segment names nothing is to put a chain at the end of the tree. -/
theorem set_eq_commit {text kindName : String} {raw : Raw} {path : Path} {payload : Payload Node}
    (hpath : Path.parse text = .ok path) (hraw : boundedCoerce callLimit kindName raw = .ok payload)
    (hnew : s.root.named? path.head = none) (hlength : path.tail.length < callLimit) :
    s.set text raw kindName =
      (let committed := { s with supply := s.supply.skip path.segments.length }.commit
        (s.root ++ [Forest.chain s.supply payload path.head path.tail])
       (committed.1.map fun _ ↦ .created, committed.2)) := by
  have hput : s.root.put s.supply path payload =
      (s.root ++ [Forest.chain s.supply payload path.head path.tail], .created,
        s.supply.skip path.segments.length) := by
    rw [Forest.put, Forest.putAlong_of_unnamed s.supply payload path.tail hnew]
  unfold set
  rw [hpath, hraw]
  simp only [Except.mapError, Forest.boundedPut_of_le hlength, hput, Outcome.isChange, if_true]

/-- A new path with too many segments is put into the tree, but the slot refuses the tree. -/
theorem set_too_deep {text kindName : String} {raw : Raw} {path : Path} {payload : Payload Node}
    (hkept : s.isKept = true) (hpath : Path.parse text = .ok path)
    (hraw : boundedCoerce callLimit kindName raw = .ok payload)
    (hnew : s.root.named? path.head = none) (hlength : path.tail.length < callLimit)
    (hdeep : encodingLimit ≤ path.tail.length) :
    s.set text raw kindName = (.error (.slot .tooDeep),
      s.ahead (s.root ++ [Forest.chain s.supply payload path.head path.tail])
        (s.supply.skip path.segments.length)) := by
  let n := Forest.chain s.supply payload path.head path.tail
  let supply := s.supply.skip path.segments.length
  have hheight : encodingLimit < Forest.height (s.root ++ [n]) := by
    rw [Forest.height_append, Forest.height_singleton]
    calc
      encodingLimit ≤ path.tail.length := hdeep
      _ < n.height := Forest.length_lt_height_chain s.supply payload path.head path.tail
      _ ≤ max (Forest.height s.root) n.height := Nat.le_max_right _ _
  have hsave : save { s with supply := supply, root := s.root ++ [n] } =
      (.error (.slot .tooDeep), s.ahead (s.root ++ [n]) supply) :=
    save_of_error hkept (if_pos hheight)
  rw [set_eq_commit hpath hraw hnew hlength, commit_eq_save _ (List.concat_ne_nil _ _)]
  dsimp only
  rw [hsave]
  rfl

/-- A session goes on with a tree that the slot does not hold, though they agreed before. -/
theorem exists_tree_ahead :
    ∃ s s' : Session, openSlot (.standard "/home/user") (.ofText "[]") ⟨0⟩ = .ok s ∧
      s.slot.load ⟨0⟩ .sample = .ok (s.root, ⟨0⟩) ∧
      s.perform (.set (String.ofList (Text.joined ['.'] (List.replicate 700 ['a']))) (.text "x")
        "text") = (.error (.slot .tooDeep), s') ∧
      s'.slot = s.slot ∧ s'.root ≠ s.root := by
  have htext : Forest.recordText [] = "[]" := rfl
  have hload : (Slot.ofText "[]").load ⟨0⟩ .sample = .ok ([], ⟨0⟩) := by
    rw [← htext]
    exact load_ofText_recordText ⟨0⟩ .sample (Forest.hasUniqueNamesAs_nil .dictionary)
      ⟨by decide, by decide⟩
  let s := start (.standard "/home/user") [] (.ofText "[]") true ⟨0⟩
  have hopen : openSlot (.standard "/home/user") (.ofText "[]") ⟨0⟩ = .ok s := by
    unfold openSlot
    rw [hload]
    rfl
  have hraw : boundedCoerce callLimit "text" (.text "x") = .ok (.leaf (.text "x")) := rfl
  obtain ⟨path, hpath, -, hlength⟩ := Path.exists_parse_replicate 699
  have hshort : path.tail.length < callLimit := by
    rw [hlength]
    decide
  have hdeep : encodingLimit ≤ path.tail.length := by
    rw [hlength]
    decide
  have hset := @set_too_deep s _ _ _ _ _ rfl hpath hraw rfl hshort hdeep
  exact ⟨s, s.ahead _ _, hopen, hload, congrArg Step.ignore hset, rfl, List.cons_ne_nil _ _⟩

end Session

end KeyTree
