import KeyTree.Proofs.Session.Runs
import KeyTree.Proofs.Trigger.Consumption

/-!
# What is saved

A put hands back the very tree that it was given, or a tree that it has made. A session saves what is
handed back to it unless it is the tree that it has. So a run of puts saves as often as there are
changes among their outcomes, and every other call leaves the tree and the slot as they are.
-/

namespace KeyTree

namespace Forest

/-- What a put hands back: the very siblings that it was given, or siblings that it has made. -/
inductive Handed where
  | same
  | made (nodes : Forest)

/-- The siblings that are handed back. -/
def Handed.over (nodes : Forest) : Handed → Forest
  | same => nodes
  | made new => new

/-- Puts a payload where segments lead, and makes siblings only for a change. -/
def handAlong (supply : Supply) (payload : Payload Node) (nodes : Forest) (head : String) :
    List String → Handed × Outcome
  | [] => match nodes.named? head with
    | none => (.made (nodes ++ [chain supply payload head []]), .created)
    | some n =>
      if n.payload.same payload then (.same, .unchanged)
      else (.made (replaceNamed head { n with payload := payload } nodes), .updated)
  | next :: rest => match nodes.named? head with
    | none => (.made (nodes ++ [chain supply payload head (next :: rest)]), .created)
    | some n => match n.children? with
      | none => (.same, .blocked)
      | some children =>
        let (handed, outcome) := handAlong (supply.skip 1) payload children next rest
        if outcome.isChange then
          (.made (replaceNamed head (n.withChildren (handed.over children)) nodes), outcome)
        else (.same, outcome)

/-- What is handed back is the tree that is put together, and a new one just for a change. -/
theorem handAlong_eq (supply : Supply) (payload : Payload Node) (nodes : Forest) (head : String)
    (tail : List String) :
    handAlong supply payload nodes head tail =
      (if (putAlong supply payload nodes head tail).2.isChange then
          .made (putAlong supply payload nodes head tail).1 else .same,
        (putAlong supply payload nodes head tail).2) := by
  induction tail generalizing supply nodes head with
  | nil =>
    unfold handAlong putAlong
    cases nodes.named? head with
    | none => rfl
    | some n =>
      dsimp only
      split <;> rfl
  | cons next rest ih =>
    unfold handAlong putAlong
    cases nodes.named? head with
    | none => rfl
    | some n =>
      cases hchildren : n.children? with
      | none => simp [hchildren, Outcome.isChange]
      | some children =>
        simp only [hchildren, ih]
        split <;> rfl

end Forest

/-- What the parameters of a trigger ask to be put, which is nothing without a key. -/
def Trigger.asks (params : Params) : Except TriggerFault (Option (Path × Payload Node)) :=
  match nonempty? params "key" with
  | none => .ok none
  | some key => (asked key (nonempty? params "type") (nonempty? params "value")).map some

/-- What a call asks to be put. -/
def Call.asks : Call → Except SessionFault (Option (Path × Payload Node))
  | set path value kindName => do
    let p ← (Path.parse path).mapError .path
    let payload ← (boundedCoerce callLimit kindName value).mapError ChangeFault.toSession
    return some (p, payload)
  | applyTrigger params => (Trigger.asks params).mapError .trigger
  | openLink library link => do
    let taken ← (Trigger.takeLink library link).mapError .url
    (Trigger.asks (taken.params.map fun (name, value) ↦ (name, some value))).mapError .trigger
  | _ => .ok none

/-- The fault of a call whose path leads deeper than calls fit on the stack. -/
def Call.depthFault : Call → SessionFault
  | set .. => .limit .tooDeep
  | _ => .trigger .tooDeep

/-- Whether a call puts a value at a path, be it through a trigger. -/
def Call.IsPut : Call → Prop
  | set .. | applyTrigger _ | openLink .. => True
  | _ => False

namespace Session

variable {s : Session}

/-! ## Taking over what is handed back -/

/-- Takes over what a put hands back. The tree that the session has is no new one. -/
def takeOver (s : Session) : Forest.Handed → Step Unit
  | .same => (.ok (), s)
  | .made root => { s with root := root }.save

/-- Puts a payload at a path, and takes over what is handed back, whatever the outcome is. -/
def putAt (s : Session) (path : Path) (payload : Payload Node) : Step Outcome :=
  let (handed, outcome) := s.root.handAlong s.supply payload path.head path.tail
  let (done, s) := { s with supply := s.supply.skip path.segments.length }.takeOver handed
  (done.map fun _ ↦ outcome, s)

/-- Puts what is asked for, if the calls for it fit on the stack. -/
def putAsked (s : Session) (depthFault : SessionFault) :
    Except SessionFault (Option (Path × Payload Node)) → Step (Option Outcome)
  | .error fault => (.error fault, s)
  | .ok none => (.ok none, s)
  | .ok (some (path, payload)) =>
    if s.root.putCalls path.head path.tail ≤ callLimit then
      ((s.putAt path payload).1.map some, (s.putAt path payload).2)
    else (.error depthFault, s)

/-- Taking over a tree for a change is taking over what is handed back. -/
theorem commit_put {α : Type} (s : Session) (path : Path) (payload : Payload Node)
    (f : Outcome → α) :
    (let put := s.root.put s.supply path payload
     let t : Session := { s with supply := put.2.2 }
     if put.2.1.isChange then ((t.commit put.1).1.map fun _ ↦ f put.2.1, (t.commit put.1).2)
     else (.ok (f put.2.1), t)) =
      ((s.putAt path payload).1.map f, (s.putAt path payload).2) := by
  have hne := (Forest.puts_putAlong s.supply payload s.root path.head path.tail).ne_nil
  unfold putAt Forest.put
  rw [Forest.handAlong_eq]
  dsimp only
  split
  case isTrue hchange =>
    -- A changed tree is not empty, so it is never taken for the empty tree of the session.
    rw [commit_eq_save _ (hne hchange), takeOver]
    dsimp only
    generalize save _ = step
    obtain ⟨done, s'⟩ := step
    cases done <;> rfl
  case isFalse => rfl

theorem set_eq_putAsked (s : Session) (path kindName : String) (value : Raw) :
    ((s.set path value kindName).1.map some, (s.set path value kindName).2) =
      s.putAsked (.limit .tooDeep) (Call.asks (.set path value kindName)) := by
  rw [set, Call.asks]
  cases Path.parse path with
  | error fault => rfl
  | ok p =>
    cases boundedCoerce callLimit kindName value with
    | error fault => rfl
    | ok payload =>
      change _ = s.putAsked _ (.ok (some (p, payload)))
      by_cases hcalls : s.root.putCalls p.head p.tail ≤ callLimit
      · simp only [Except.mapError, putAsked, Forest.boundedPut, if_pos hcalls]
        have hput := s.commit_put p payload id
        rw [Except.map_id] at hput
        exact congrArg (fun step : Step Outcome ↦ (step.1.map some, step.2)) hput
      · simp only [Except.mapError, putAsked, Forest.boundedPut, if_neg hcalls]
        rfl

theorem applyTrigger_eq_putAsked (s : Session) (params : Trigger.Params) :
    ((s.applyTrigger params).1.map (·.outcome), (s.applyTrigger params).2) =
      s.putAsked (.trigger .tooDeep) ((Trigger.asks params).mapError .trigger) := by
  rw [applyTrigger, Trigger.apply_eq_act, Trigger.asks]
  cases Trigger.nonempty? params "key" with
  | none => rfl
  | some key =>
    rw [Trigger.act]
    dsimp only
    cases Trigger.asked key (Trigger.nonempty? params "type")
        (Trigger.nonempty? params "value") with
    | error fault => rfl
    | ok asked =>
      obtain ⟨path, payload⟩ := asked
      change _ = s.putAsked _ (.ok (some (path, payload)))
      by_cases hcalls : s.root.putCalls path.head path.tail ≤ callLimit
      · simp only [bind, Except.bind, Trigger.effectOf, Forest.boundedPut, putAsked, if_pos hcalls]
        let root := (s.root.put s.supply path payload).1
        have hput := s.commit_put path payload fun outcome ↦
          (⟨root, some outcome, some (outcome.acknowledgement key)⟩ : Trigger.Effect)
        have hstep := congrArg (fun step : Step Trigger.Effect ↦
          (step.1.map (·.outcome), step.2)) hput
        refine hstep.trans ?_
        dsimp only
        cases (s.putAt path payload).1 <;> rfl
      · simp only [bind, Except.bind, Trigger.effectOf, Forest.boundedPut, putAsked, if_neg hcalls]
        rfl

theorem openLink_eq_putAsked (s : Session) (library : UrlLibrary) (link : String) :
    ((s.openLink library link).1.map (·.1.outcome), (s.openLink library link).2) =
      s.putAsked (.trigger .tooDeep) (Call.asks (.openLink library link)) := by
  rw [openLink, Call.asks]
  cases Trigger.takeLink library link with
  | error fault => rfl
  | ok taken =>
    refine Eq.trans ?_ (applyTrigger_eq_putAsked s _)
    dsimp only [useLink]
    cases (s.applyTrigger _).1 <;> rfl

/-- The outcome of a call. A trigger without a key has none, nor has a call that puts nothing. -/
def outcome (s : Session) : Call → Except SessionFault (Option Outcome)
  | .set path value kindName => (s.set path value kindName).1.map some
  | .applyTrigger params => (s.applyTrigger params).1.map (·.outcome)
  | .openLink library link => (s.openLink library link).1.map (·.1.outcome)
  | call => (s.perform call).1.map fun _ ↦ none

/-- A call that puts a value puts what it asks for and takes over what is handed back. -/
theorem perform_eq_putAsked (s : Session) {call : Call} (h : call.IsPut) :
    (s.outcome call, (s.perform call).2) = s.putAsked call.depthFault call.asks := by
  cases call with
  | set path value kindName => exact set_eq_putAsked s path kindName value
  | applyTrigger params => exact applyTrigger_eq_putAsked s params
  | openLink library link => exact openLink_eq_putAsked s library link
  | _ => cases h

/-! ## Puts and saves -/

/-- Whether a call has created or updated a node. -/
def tellsChange : Except SessionFault (Option Outcome) → Bool
  | .ok (some .created) | .ok (some .updated) => true
  | _ => false

theorem tellsChange_ok (outcome : Outcome) :
    tellsChange (.ok (some outcome)) = outcome.isChange := by
  cases outcome <;> rfl

/-- How a call that puts a value ends, and what it tells. -/
inductive Ended (s s' : Session) (told : Except SessionFault (Option Outcome)) : Prop
  /-- The session goes on with the very tree that it has. -/
  | idle (htold : tellsChange told = false) (hroot : s'.root = s.root) (hslot : s'.slot = s.slot)
      (hsaves : s'.saves = s.saves) (hkept : s'.isKept = s.isKept)
  | written (htold : tellsChange told = true) (hslot : s'.slot = .ofText s'.root.recordText)
      (hsaves : s'.saves = s.saves + 1) (hkept : s'.isKept = s.isKept)
  /-- The slot has refused the new tree. -/
  | unsaved {fault : SlotFault} (htold : told = .error (.slot fault)) (hkept : s'.isKept = s.isKept)

theorem ended_putAt (hkept : s.isKept = true) (path : Path) (payload : Payload Node) :
    Ended s (s.putAt path payload).2 ((s.putAt path payload).1.map some) := by
  unfold putAt
  rw [Forest.handAlong_eq]
  dsimp only
  split
  case isTrue hchange =>
    generalize Forest.putAlong s.supply payload s.root path.head path.tail = put at hchange ⊢
    let t : Session := { s with supply := s.supply.skip path.segments.length, root := put.1 }
    change Ended s t.save.2 (Except.map some (Except.map (fun _ ↦ put.2) t.save.1))
    rcases Slot.save_spec s.slot put.1 with ⟨-, hok⟩ | ⟨-, fault, hfault⟩
    · have hsave : t.save = _ := save_of_ok hkept hok
      rw [hsave]
      exact .written ((tellsChange_ok put.2).trans hchange) rfl rfl rfl
    · have hsave : t.save = _ := save_of_error hkept hfault
      rw [hsave]
      exact .unsaved rfl rfl
  case isFalse hchange =>
    rw [Bool.not_eq_true] at hchange
    exact .idle ((tellsChange_ok _).trans hchange) rfl rfl rfl rfl

theorem ended_perform (hkept : s.isKept = true) {call : Call} (h : call.IsPut) :
    Ended s (s.perform call).2 (s.outcome call) := by
  have hput := perform_eq_putAsked s h
  have houtcome : s.outcome call = (s.putAsked call.depthFault call.asks).1 :=
    congrArg Prod.fst hput
  have hperform : (s.perform call).2 = (s.putAsked call.depthFault call.asks).2 :=
    congrArg Prod.snd hput
  rw [houtcome, hperform]
  rcases call.asks with fault | none | ⟨path, payload⟩
  · exact .idle rfl rfl rfl rfl rfl
  · exact .idle rfl rfl rfl rfl rfl
  · rw [putAsked]
    split
    case isTrue => exact ended_putAt hkept path payload
    case isFalse => exact .idle rfl rfl rfl rfl rfl

/--
What a call that puts a value does. It takes over what its put hands back, it saves the new tree if
it tells a change, and otherwise it leaves the tree and the slot as they are.
-/
structure SavesChanges (s : Session) (call : Call) : Prop where
  handed : (s.outcome call, (s.perform call).2) = s.putAsked call.depthFault call.asks
  written : tellsChange (s.outcome call) = true →
    (s.perform call).2.slot = .ofText (s.perform call).2.root.recordText ∧
      (s.perform call).2.saves = s.saves + 1
  idle : tellsChange (s.outcome call) = false →
    (s.perform call).2.root = s.root ∧ (s.perform call).2.slot = s.slot ∧
      (s.perform call).2.saves = s.saves
  isKept : (s.perform call).2.isKept = s.isKept

theorem savesChanges (hkept : s.isKept = true) {call : Call} (h : call.IsPut)
    (hsaved : ∀ fault, s.outcome call ≠ .error (.slot fault)) : s.SavesChanges call where
  handed := perform_eq_putAsked s h
  written hchange := by
    cases ended_perform hkept h with
    | idle htold => cases htold.symm.trans hchange
    | written _ hslot hsaves => exact ⟨hslot, hsaves⟩
    | unsaved htold => exact absurd htold (hsaved _)
  idle hidle := by
    cases ended_perform hkept h with
    | idle _ hroot hslot hsaves => exact ⟨hroot, hslot, hsaves⟩
    | written htold => cases htold.symm.trans hidle
    | unsaved htold => exact absurd htold (hsaved _)
  isKept := by
    cases ended_perform hkept h with
    | idle _ _ _ _ h => exact h
    | written _ _ _ h => exact h
    | unsaved _ h => exact h

/-! ## Runs -/

/-- What the calls of a run tell, in order. -/
def outcomes (s : Session) : List Call → List (Except SessionFault (Option Outcome))
  | [] => []
  | call :: calls => s.outcome call :: (s.perform call).2.outcomes calls

/-- Whether the slot has taken every tree that was saved. -/
def AllSaved (told : List (Except SessionFault (Option Outcome))) : Prop :=
  ∀ result ∈ told, ∀ fault, result ≠ .error (.slot fault)

theorem savesChanges_run (hkept : s.isKept = true) {first rest : List Call} {call : Call}
    (hcalls : ∀ other ∈ first ++ call :: rest, other.IsPut)
    (hsaved : AllSaved (s.outcomes (first ++ call :: rest))) : (s.run first).SavesChanges call := by
  induction first generalizing s with
  | nil =>
    have hcall : call.IsPut := hcalls call List.mem_cons_self
    exact savesChanges hkept hcall (hsaved _ List.mem_cons_self)
  | cons next first ih =>
    rw [List.cons_append, outcomes, AllSaved, List.forall_mem_cons] at hsaved
    rw [List.cons_append, List.forall_mem_cons] at hcalls
    have hnext := savesChanges hkept hcalls.1 hsaved.1
    exact ih (hnext.isKept.trans hkept) hcalls.2 hsaved.2

theorem saves_run (hkept : s.isKept = true) {calls : List Call}
    (hcalls : ∀ call ∈ calls, call.IsPut) (hsaved : AllSaved (s.outcomes calls)) :
    (s.run calls).saves = s.saves + (s.outcomes calls).countP tellsChange := by
  induction calls generalizing s with
  | nil => rfl
  | cons call calls ih =>
    rw [outcomes, AllSaved, List.forall_mem_cons] at hsaved
    rw [List.forall_mem_cons] at hcalls
    have hcall := savesChanges hkept hcalls.1 hsaved.1
    rw [run_cons, outcomes, List.countP_cons, ih (hcall.isKept.trans hkept) hcalls.2 hsaved.2]
    cases hchange : tellsChange (s.outcome call) with
    | true =>
      rw [(hcall.written hchange).2, if_pos rfl]
      omega
    | false =>
      rw [(hcall.idle hchange).2.2, if_neg Bool.false_ne_true]
      omega

/--
As many trees are saved as there are changes among the outcomes of the calls. Each call takes over
what its put hands back, and one that tells no change keeps the tree and the slot of the session.
-/
theorem saves_eq_changes (hkept : s.isKept = true) {calls : List Call}
    (hcalls : ∀ call ∈ calls, call.IsPut) (hsaved : AllSaved (s.outcomes calls)) :
    (s.run calls).saves = s.saves + (s.outcomes calls).countP tellsChange ∧
      ∀ first call rest, calls = first ++ call :: rest → (s.run first).SavesChanges call := by
  refine ⟨saves_run hkept hcalls hsaved, ?_⟩
  rintro first call rest rfl
  exact savesChanges_run hkept hcalls hsaved

/-- Puts of all outcomes, triggers that put nothing, and a link. -/
def mixedCalls : List Call :=
  [.set "a" (.text "x") "text", .set "a" (.text "x") "text", .set "a.b" (.text "y") "text",
    .set "a..b" (.text "y") "text", .applyTrigger [("value", some "z"), ("tab", some "1")],
    .applyTrigger [("key", some "a"), ("type", some "expression")],
    .openLink Url.library "?key=a&value=y&tab=1"]

theorem outcomes_mixedCalls :
    (start (.standard "/home/user") [] .missing true ⟨0⟩).outcomes mixedCalls =
      [.ok (some .created), .ok (some .unchanged), .ok (some .blocked),
        .error (.path ⟨"a..b", ""⟩), .ok none,
        .error (.trigger (.unsupportedType "expression")), .ok (some .updated)] := by
  have htake : Trigger.takeLink Url.library "?key=a&value=y&tab=1" =
      .ok ⟨[("key", "a"), ("value", "y")],
        (⟨[], [], [], none, [], some "tab=1".toList, none⟩ : Url)⟩ := by
    cbv
  simp only [mixedCalls, outcomes, outcome, openLink, htake]
  rfl

/-- Two of the calls tell a change, so two trees are saved. -/
theorem saves_eq_changes_mixedCalls :
    (start (.standard "/home/user") [] .missing true ⟨0⟩).isKept = true ∧
      (∀ call ∈ mixedCalls, call.IsPut) ∧
      AllSaved ((start (.standard "/home/user") [] .missing true ⟨0⟩).outcomes mixedCalls) ∧
      ((start (.standard "/home/user") [] .missing true ⟨0⟩).run mixedCalls).saves = 2 := by
  let s := start (.standard "/home/user") [] .missing true ⟨0⟩
  have hcalls : ∀ call ∈ mixedCalls, call.IsPut := by
    simp [mixedCalls, Call.IsPut]
  have hsaved : AllSaved (s.outcomes mixedCalls) := by
    rw [outcomes_mixedCalls]
    intro result hmem fault heq
    rw [heq] at hmem
    simp at hmem
  have hsaves := (saves_eq_changes (s := s) rfl hcalls hsaved).1
  rw [outcomes_mixedCalls] at hsaves
  exact ⟨rfl, hcalls, hsaved, hsaves⟩

end Session

end KeyTree
