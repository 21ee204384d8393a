import KeyTree.Proofs.Document.Restore
import KeyTree.Proofs.Session.Calls

/-!
# Runs of calls

Names and identities that are different stay so, whatever calls a session is used through. Once a
call has kept a tree, the slot holds the records of the tree that the session has, so loading gives
that tree back.
-/

namespace KeyTree

namespace Forest

theorem isIdentified_nil (supply : Supply) : IsIdentified [] supply := by
  refine ⟨List.nodup_nil, ?_⟩
  intro i _ hmem
  cases hmem

/-- Labelling gives different identities, and none that is given out again. -/
theorem isIdentified_labelAll (supply : Supply) (nodes : Forest) :
    IsIdentified (supply.labelAll nodes).1 (supply.labelAll nodes).2 := by
  obtain ⟨hids, hsupply, -⟩ := Supply.labelAll_spec supply nodes
  rw [hsupply]
  apply (isIdentified_nil supply).of_le
  rw [hids]
  exact Multiset.le_add_left _ _

theorem hasUniqueNames_sample : HasUniqueNames sample := by
  refine ⟨Shape.admits_dictionary.2 (by decide), ?_⟩
  simp only [sample, leaf, List.forall_mem_cons]
  refine ⟨.leaf _, ?_, .leaf _, .leaf _, .leaf _, fun n hn ↦ by cases hn⟩
  refine .branch (Shape.admits_dictionary.2 (by decide)) ?_
  simp only [List.forall_mem_cons]
  exact ⟨.leaf _, .leaf _, fun n hn ↦ by cases hn⟩

end Forest

namespace Session

variable {s : Session}

theorem run_cons (call : Call) (calls : List Call) :
    s.run (call :: calls) = (s.perform call).2.run calls := rfl

/-! ## Names and identities -/

/-- The names are different in every dictionary, and the identities are different. -/
structure IsSound (s : Session) : Prop where
  names : s.root.HasUniqueNames
  ids : s.root.IsIdentified s.supply

theorem IsSound.follows {s' : Session} (h : s.IsSound) (hfollows : Follows s s') : s'.IsSound := by
  obtain ⟨count, hsupply, hroot⟩ := hfollows.root
  constructor
  · exact hroot.hasUniqueNames h.names
  · rw [hsupply]
    exact h.ids.of_le hroot.ids_le

theorem IsSound.perform {call : Call} (h : s.IsSound) (hcall : call.IsPlain) :
    (s.perform call).2.IsSound :=
  h.follows (follows_perform h.ids.nodup hcall)

theorem IsSound.run {calls : List Call} (h : s.IsSound) (hcalls : ∀ call ∈ calls, call.IsPlain) :
    (s.run calls).IsSound := by
  induction calls generalizing s with
  | nil => exact h
  | cons call calls ih =>
    rw [List.forall_mem_cons] at hcalls
    rw [run_cons]
    exact ih (h.perform hcalls.1) hcalls.2

/-- After any calls the names are different again, in every dictionary and at the root. -/
theorem hasUniqueNames_run (calls : List Call) (hnames : s.root.HasUniqueNames)
    (hids : s.root.IsIdentified s.supply) (hcalls : ∀ call ∈ calls, call.IsPlain) :
    (s.run calls).root.HasUniqueNames :=
  (IsSound.run ⟨hnames, hids⟩ hcalls).names

/-- The tree that a user starts with has different names still when a call has been refused. -/
theorem hasUniqueNames_run_sample :
    Forest.HasUniqueNames ((start (.standard "/home/user") (Supply.labelAll ⟨0⟩ Forest.sample).1
      .missing true (Supply.labelAll ⟨0⟩ Forest.sample).2).run
        [.enter "x", .set "config.size" .null "number"]).root := by
  apply hasUniqueNames_run
  · exact (Supply.hasUniqueNames_labelAll ⟨0⟩ _).2 Forest.hasUniqueNames_sample
  · exact Forest.isIdentified_labelAll ⟨0⟩ Forest.sample
  · rw [List.forall_mem_cons, List.forall_mem_singleton]
    exact ⟨trivial, fun h ↦ by cases h⟩

/-! ## The slot -/

/-- No tree has been kept since a number of saves, or the slot holds the tree of the session, unless
that tree nests too deeply to be kept. -/
structure Agrees (saves : Nat) (s : Session) : Prop where
  isKept : s.isKept = true
  slot : s.slot ≠ .directory
  text : encodingLimit < Forest.height s.root ∨ s.saves = saves ∨ s.slot = .ofText s.root.recordText

theorem Agrees.follows {saves : Nat} {s' : Session} (h : Agrees saves s) (hfollows : Follows s s') :
    Agrees saves s' := by
  have hkept : s'.isKept = true := hfollows.isKept.trans h.isKept
  cases hfollows.keeping with
  | unchanged hroot hslot hsaves =>
    refine ⟨hkept, hslot ▸ h.slot, ?_⟩
    rw [hroot, hslot, hsaves]
    exact h.text
  | kept _ hslot hsaves =>
    refine ⟨hkept, ?_, .inr (.inr hslot)⟩
    rw [hslot]
    exact Slot.noConfusion
  | lost hfault hslot =>
    refine ⟨hkept, hslot ▸ h.slot, ?_⟩
    rcases Slot.save_spec s.slot s'.root with ⟨-, hok⟩ | ⟨hdirectory | hdeep, -⟩
    · rw [hok] at hfault
      cases hfault
    · exact absurd hdirectory h.slot
    · exact .inl hdeep
  | unkept hunkept =>
    rw [h.isKept] at hunkept
    cases hunkept

theorem Agrees.run {saves : Nat} {calls : List Call} (h : Agrees saves s) (hsound : s.IsSound)
    (hcalls : ∀ call ∈ calls, call.IsPlain) : Agrees saves (s.run calls) := by
  induction calls generalizing s with
  | nil => exact h
  | cons call calls ih =>
    rw [List.forall_mem_cons] at hcalls
    rw [run_cons]
    exact ih (h.follows (follows_perform hsound.ids.nodup hcalls.1)) (hsound.perform hcalls.1)
      hcalls.2

theorem load_ofText_recordText {root : Forest} (supply : Supply) (fallback : Forest)
    (hnames : root.HasUniqueNames) (hlow : root.IsStorable) :
    (Slot.ofText root.recordText).load supply fallback =
      .ok (Forest.mapLeaves Leaf.withoutNegativeZero root, supply) := by
  rw [Slot.load, Slot.read_ofText_recordText hnames.2 hlow]

/-- After any calls of which one has saved a tree, the slot gives the tree of the session. -/
theorem load_run (calls : List Call) (supply : Supply) (fallback : Forest)
    (hkept : s.isKept = true) (hslot : s.slot ≠ .directory) (hnames : s.root.HasUniqueNames)
    (hids : s.root.IsIdentified s.supply) (hcalls : ∀ call ∈ calls, call.IsPlain)
    (hsaved : s.saves < (s.run calls).saves) (hlow : (s.run calls).root.IsStorable) :
    (s.run calls).slot.load supply fallback =
      .ok (Forest.mapLeaves Leaf.withoutNegativeZero (s.run calls).root, supply) := by
  have hsound : s.IsSound := ⟨hnames, hids⟩
  have hagrees : Agrees s.saves (s.run calls) :=
    Agrees.run ⟨hkept, hslot, .inr (.inl rfl)⟩ hsound hcalls
  have htext : (s.run calls).slot = .ofText (s.run calls).root.recordText :=
    (hagrees.text.resolve_left hlow.height_le.not_gt).resolve_left hsaved.ne'
  rw [htext]
  exact load_ofText_recordText supply fallback (hsound.run hcalls).names hlow

/-- A session on an empty tree, with nothing kept yet. -/
def unfurnished : Session := start (.standard "/home/user") [] .missing true ⟨0⟩

/-- Calls that make a list in dictionaries, with a negative zero beside it. The last one is refused. -/
def furnishing : List Call := [
  .set "a.b.l" .null "list", .set "a.z" (.number (Quanta.toFloat true 0)) "number",
  .navigate "a.b.l", .add "" "text" (.text "x"), .enter "nowhere"]

/-- A list in dictionaries is loaded as it is, and a negative zero beside it as zero. -/
theorem load_run_furnishing :
    (unfurnished.run furnishing).slot.load ⟨9⟩ [] =
      .ok ([⟨Supply.idOf 0, "a", .branch .dictionary [
        ⟨Supply.idOf 1, "b", .branch .dictionary [
          ⟨Supply.idOf 2, "l", .branch .list [⟨Supply.idOf 5, "0", .leaf (.text "x")⟩]⟩]⟩,
        ⟨Supply.idOf 4, "z", .leaf (.number 0)⟩]⟩], ⟨9⟩) := by
  have hroot : (unfurnished.run furnishing).root =
      [⟨Supply.idOf 0, "a", .branch .dictionary [
        ⟨Supply.idOf 1, "b", .branch .dictionary [
          ⟨Supply.idOf 2, "l", .branch .list [⟨Supply.idOf 5, "0", .leaf (.text "x")⟩]⟩]⟩,
        ⟨Supply.idOf 4, "z", .leaf (.number (Quanta.toFloat true 0))⟩]⟩] := rfl
  have hsaves : (unfurnished.run furnishing).saves = 3 := rfl
  have hplain : ∀ call ∈ furnishing, call.IsPlain := by
    have hnull : ¬ Raw.null.HoldsNode := fun h ↦ by cases h
    have hzero : ¬ (Raw.number (Quanta.toFloat true 0)).HoldsNode := fun h ↦ by cases h
    have htext : ¬ (Raw.text "x").HoldsNode := fun h ↦ by cases h
    simp only [furnishing, List.forall_mem_cons]
    exact ⟨hnull, hzero, trivial, htext, trivial, List.forall_mem_nil _⟩
  have hlow : (unfurnished.run furnishing).root.IsStorable := by
    rw [hroot]
    exact ⟨by decide, by decide⟩
  have hzero : Quanta.withoutNegativeZero (Quanta.toFloat true 0) = 0 := by decide
  have hkept : unfurnished.isKept = true := rfl
  have hsaved : 0 < (unfurnished.run furnishing).saves := by
    rw [hsaves]
    exact Nat.zero_lt_succ 2
  have hload := load_run furnishing ⟨9⟩ [] hkept Slot.noConfusion
    (Forest.hasUniqueNamesAs_nil .dictionary) (Forest.isIdentified_nil ⟨0⟩) hplain hsaved hlow
  rw [hload, hroot]
  simp only [Forest.mapLeaves, Node.mapLeaves, Leaf.withoutNegativeZero, hzero]

end Session

end KeyTree
