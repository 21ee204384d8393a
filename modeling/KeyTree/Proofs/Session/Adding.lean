import KeyTree.Proofs.Session.Scopes
import KeyTree.Proofs.Tree.Lens

/-!
# Adding a node

To add a node, the tree is walked three times: to the container, for its kind; through all the levels
of the scope, to put the node in; and to the siblings again, to give back the one whose identity was
not there before. Where siblings have different identities, all three mean the same siblings. So what
is given back is what was put in, and nothing else has changed. It is not given back if the slot does
not take the new tree.
-/

namespace KeyTree

namespace Forest

variable {scope : Scope} {root new : Forest} {supply : Supply} {name kindName : String}
  {value : Raw} {n : Node}

/-! ## What is refused -/

/-- One node is new among the siblings within a scope, and everything else is as it was. -/
structure Inserts (scope : Scope) (name : String) (n : Node) (root new : Forest) : Prop where
  /-- No node of the tree has had its identity. -/
  fresh : n.id ∉ ids root
  /-- In a list it comes last, and its position is its name. -/
  inList : root.isListAt scope = true →
    n.name = positionName (root.within scope).length ∧ new.within scope = root.within scope ++ [n]
  /-- Elsewhere it takes the place of the first node of its name, or comes last. -/
  elsewhere : root.isListAt scope = false →
    n.name = name ∧ TakesPlace n (root.within scope) (new.within scope)
  outside : ReplacesWithin (root.within scope) (new.within scope) scope root new

theorem TakesPlace.exists_eq_append {old changed : Forest} (h : TakesPlace n old changed) :
    ∃ before after, changed = before ++ n :: after ∧ before ⊆ old := by
  cases h with
  | @first before after => exact ⟨before, after, rfl, List.subset_append_left before _⟩
  | last => exact ⟨old, [], rfl, List.Subset.refl old⟩

theorem Inserts.exists_eq_append (h : Inserts scope name n root new) :
    ∃ before after, new.within scope = before ++ n :: after ∧ before ⊆ root.within scope := by
  cases hlist : root.isListAt scope with
  | true => exact ⟨_, [], (h.inList hlist).2, List.Subset.refl _⟩
  | false => exact (h.elsewhere hlist).2.exists_eq_append

theorem Inserts.ne_nil (h : Inserts scope name n root new) : new ≠ [] := by
  obtain ⟨before, after, hwithin, -⟩ := h.exists_eq_append
  apply h.outside.ne_nil
  rw [hwithin]
  exact List.append_ne_nil_of_right_ne_nil before (List.cons_ne_nil n after)

end Forest

namespace Session

variable {α β : Type} {s : Session}

/-! ## What is given back -/

/-- A result about a new tree is given by a session that has the tree, unless the tree is to be kept
and the slot does not take it. -/
inductive Answers (s : Session) (root : Forest) (x : α) : Step α → Prop
  | taken {s' : Session} (h : s.isKept = true → ∃ slot, s.slot.save root = .ok slot)
      (hroot : s'.root = root) (hscope : s'.scope = s.scope) : Answers s root x (.ok x, s')
  | unsaved {s' : Session} {fault : SlotFault} (hkept : s.isKept = true)
      (hfault : s.slot.save root = .error fault) : Answers s root x (.error (.slot fault), s')

theorem Answers.map {root : Forest} {x : α} {step : Step α} (h : s.Answers root x step)
    (f : α → β) : s.Answers root (f x) (step.1.map f, step.2) := by
  cases h with
  | taken h hroot hscope => exact .taken h hroot hscope
  | unsaved hkept hfault => exact .unsaved hkept hfault

/-- A session within a list that holds one node. -/
def listed : Session :=
  { start (.standard "/home/user") [⟨Supply.idOf 0, "l", .branch .list [box 1]⟩] .missing true ⟨2⟩ with
    scope := [Supply.idOf 0] }

end Session

end KeyTree
