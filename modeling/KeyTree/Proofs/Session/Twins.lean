import KeyTree.Proofs.Formula.Evaluation
import KeyTree.Proofs.Session.Refusals
import KeyTree.Proofs.Tree.TwinEdits

/-!
# Sessions that cannot be told apart

A session that keeps its tree and one that does not answer alike, as long as their trees are twins
and what has been computed before is right. What is done to both leaves twins again, unless the slot
refuses a tree that nests too deeply.
-/

namespace KeyTree

variable {E : String → String → Prop} {root root' : Forest} {cache cache' : Arithmetic.Cache}
  {n m : Node}

/-! ## Formulas -/

namespace Formula

theorem Piece.fill_eq (h : Forest.Twins E root root') (piece : Piece) :
    piece.fill root = piece.fill root' := by
  cases piece with
  | char c => rfl
  | reference path =>
    rw [Piece.fill, Piece.fill]
    rcases (h.lookup? (String.ofList path)).cases with ⟨fault, hx, hy⟩ | ⟨x, y, hx, hy, hxy⟩
    · rw [hx, hy]
    · rw [hx, hy]
      cases hxy with
      | none => rfl
      | some hnm =>
        dsimp only
        rw [Node.isRenderable, Node.isRenderable, hnm.exportCalls_eq, hnm.rendered_eq]

theorem outcome_eq (h : Forest.Twins E root root') (formula : String) :
    outcome root formula = outcome root' formula := by
  have hfill : Piece.fill root = Piece.fill root' := funext (Piece.fill_eq h)
  unfold outcome fill
  rw [hfill]

/-- What a formula comes to is the same for twins, whatever the caches have seen. -/
theorem evaluate_eq (h : Forest.Twins E root root') (hcache : cache.IsReady)
    (hcache' : cache'.IsReady) (formula : String) :
    (evaluate cache root formula).1 = (evaluate cache' root' formula).1 := by
  rw [(evaluate_spec hcache root formula).1, (evaluate_spec hcache' root' formula).1,
    outcome_eq h]

end Formula

theorem Node.Twin.display_eq (h : n.Twin E m) (hroot : Forest.Twins E root root')
    (hcache : cache.IsReady) (hcache' : cache'.IsReady) :
    (n.display cache root).1 = (m.display cache' root').1 := by
  have hpayload := h.payload
  obtain ⟨id, name, payload⟩ := n
  obtain ⟨id', name', payload'⟩ := m
  cases hpayload with
  | @leaf v w hvalue =>
    rcases hvalue.eq_or with rfl | ⟨x, y, rfl, rfl, -⟩
    · cases v with
      | expression formula =>
        change (Formula.evaluate cache root formula).1.map _ =
          (Formula.evaluate cache' root' formula).1.map _
        rw [Formula.evaluate_eq hroot hcache hcache']
      | _ => rfl
    · exact congrArg Except.ok hvalue.rendered_eq
  | branch _ hchildren =>
    unfold Node.display
    dsimp only
    rw [hchildren.length_eq]

/-! ## Listings -/

namespace Listing

theorem leafLabel_eq {v w : Leaf} (h : v.Twin w) (name shown : String) :
    leafLabel name v shown = leafLabel name w shown := by
  rcases h.eq_or with rfl | ⟨x, y, rfl, rfl, -⟩
  · rfl
  · rfl

mutual

theorem ofNode_eq {n m : Node} {cache cache' : Arithmetic.Cache} (h : n.Twin E m)
    (hroot : Forest.Twins E root root') (hcache : cache.IsReady) (hcache' : cache'.IsReady) :
    (ofNode cache root n).1 = (ofNode cache' root' m).1 ∧ (ofNode cache root n).2.IsReady ∧
      (ofNode cache' root' m).2.IsReady := by
  have hpayload := h.payload
  have hname := h.name_eq
  match n, m with
  | ⟨_, name, .leaf v⟩, ⟨_, name', .leaf w⟩ =>
    obtain rfl : name = name' := hname
    cases hpayload with
    | leaf hvalue =>
      simp only [ofNode]
      rw [h.display_eq hroot hcache hcache']
      refine ⟨?_, (Node.display_spec hcache root _).1, (Node.display_spec hcache' root' _).1⟩
      congr 1
      funext text
      rw [leafLabel_eq hvalue]
  | ⟨_, name, .branch shape children⟩, ⟨_, name', .branch _ children'⟩ =>
    obtain rfl : name = name' := hname
    cases hpayload with
    | branch _ hchildren =>
      obtain ⟨heq, hready, hready'⟩ := ofForest_eq hchildren hroot hcache hcache'
      simp only [ofNode]
      rw [heq, hchildren.length_eq]
      exact ⟨rfl, hready, hready'⟩

theorem ofForest_eq {nodes nodes' : List Node} {cache cache' : Arithmetic.Cache}
    (h : Forest.Twins E nodes nodes') (hroot : Forest.Twins E root root') (hcache : cache.IsReady)
    (hcache' : cache'.IsReady) :
    (ofForest cache root nodes).1 = (ofForest cache' root' nodes').1 ∧
      (ofForest cache root nodes).2.IsReady ∧ (ofForest cache' root' nodes').2.IsReady := by
  match nodes, nodes', h with
  | [], [], .nil => exact ⟨rfl, hcache, hcache'⟩
  | n :: nodes, m :: nodes', .cons hnm hrest =>
    obtain ⟨heq, hready, hready'⟩ := ofNode_eq hnm hroot hcache hcache'
    rw [ofForest, ofForest]
    rcases hfirst : ofNode cache root n with ⟨fault | first, rest⟩
    · rw [hfirst] at heq hready
      rcases hfirst' : ofNode cache' root' m with ⟨fault' | first', rest'⟩
      · rw [hfirst'] at heq hready'
        obtain rfl := Except.error.inj heq
        exact ⟨rfl, hready, hready'⟩
      · rw [hfirst'] at heq
        cases heq
    · rw [hfirst] at heq hready
      rcases hfirst' : ofNode cache' root' m with ⟨fault' | first', rest'⟩
      · rw [hfirst'] at heq
        cases heq
      · rw [hfirst'] at heq hready'
        obtain rfl := Except.ok.inj heq
        obtain ⟨hbelow, hbelow_ready, hbelow_ready'⟩ := ofForest_eq hrest hroot hready hready'
        dsimp only at hbelow ⊢
        rw [hbelow]
        exact ⟨rfl, hbelow_ready, hbelow_ready'⟩

end

/-- The listing of twins is the same. -/
theorem text_eq {nodes nodes' : List Node} (h : Forest.Twins E nodes nodes')
    (hroot : Forest.Twins E root root') (hcache : cache.IsReady) (hcache' : cache'.IsReady)
    (title : String) :
    (text cache root title nodes).1 = (text cache' root' title nodes').1 ∧
      (text cache root title nodes).2.IsReady ∧ (text cache' root' title nodes').2.IsReady := by
  obtain ⟨heq, hready⟩ := ofForest_eq h hroot hcache hcache'
  unfold text
  dsimp only
  rw [heq]
  exact ⟨rfl, hready⟩

end Listing

/-! ## Triggers and documents -/

/-- A trigger does the same to twins. -/
theorem Trigger.apply_twins {u v : Supply} (h : Forest.Twins E root root')
    (hsupply : Supply.Twin E u v) (params : Params) :
    Alike (fun a b ↦ Forest.Twins E a.1.root b.1.root ∧ a.1.outcome = b.1.outcome ∧
      a.1.message = b.1.message ∧ Supply.Twin E a.2 b.2) (apply u root params)
      (apply v root' params) := by
  unfold apply
  cases nonempty? params "key" with
  | none => exact .ok ⟨h, rfl, rfl, hsupply⟩
  | some key =>
    dsimp only
    cases kindOf (nonempty? params "type") with
    | error fault => exact .error fault
    | ok kind =>
      cases Path.parse key with
      | error fault => exact .error _
      | ok path =>
        simp only [bind, Except.bind, Except.mapError]
        cases hcoerce : kind.coerce (rawValue ((nonempty? params "value").getD "") kind) with
        | error fault => exact .error _
        | ok payload =>
          have hbare := Kind.isBare_of_coerce (Session.not_holdsNode_rawValue _ kind) hcoerce
          dsimp only
          rcases (h.boundedPut hsupply path hbare).cases with
            ⟨fault, hx, hy⟩ | ⟨x, y, hx, hy, hroot, houtcome, hsupply⟩
          · rw [hx, hy]
            exact .error _
          · rw [hx, hy]
            refine .ok ⟨hroot, congrArg some houtcome, ?_, hsupply⟩
            exact congrArg (fun outcome ↦ some (Outcome.acknowledgement key outcome)) houtcome

/-- A document that is imported on both sides becomes twins. -/
theorem Forest.ofSource_twins {u v : Supply} (hsupply : Supply.Twin E u v) (source : Json.Source) :
    Alike (fun a b ↦ Forest.Twins E a.1 b.1 ∧ Supply.Twin E a.2 b.2) (ofSource u source)
      (ofSource v source) := by
  unfold ofSource ofDocument
  cases source.read with
  | error fault => exact .error _
  | ok document =>
    change Alike _ (document.toRaw.toForest.map _) (document.toRaw.toForest.map _)
    cases document.toRaw.toForest with
    | error fault => exact .error fault
    | ok nodes =>
      refine .ok ⟨Supply.labelAll_twins nodes fun i _ ↦ hsupply i, ?_⟩
      rw [(Supply.labelAll_spec u nodes).2.1, (Supply.labelAll_spec v nodes).2.1]
      exact hsupply.skip _

namespace Session

variable {α β γ δ : Type} {indent : Int} {s t : Session}

/-! ## Steps -/

/-- Sessions whose trees are twins. The first may keep its tree, and the second does not. -/
structure Twins (E : String → String → Prop) (indent : Int) (s t : Session) : Prop where
  root : Forest.Twins E s.root t.root
  supply : Supply.Twin E s.supply t.supply
  cache : s.cache.IsReady
  cache' : t.cache.IsReady
  exportIndent : s.exportIndent = indent
  exportIndent' : t.exportIndent = indent
  slot : s.slot ≠ .directory
  isKept : t.isKept = false

/-- How a step ends for one session and for the other. -/
inductive Meets (E : String → String → Prop) (indent : Int) (R : α → β → Prop) :
    Step α → Step β → Prop
  | refused {fault : SessionFault} (hfault : fault.isSlot = false) {s t : Session}
      (h : Twins E indent s t) :
      Meets E indent R (.error fault, s) (.error fault, t)
  /-- The slot refuses a tree that nests too deeply, which the other session takes over. -/
  | unsaved {fault : SlotFault} {s t : Session} {y : β}
      (hdeep : encodingLimit < Forest.height t.root) :
      Meets E indent R (.error (.slot fault), s) (.ok y, t)
  | done {x : α} {y : β} {s t : Session} (hxy : R x y) (h : Twins E indent s t) :
      Meets E indent R (.ok x, s) (.ok y, t)

theorem Meets.map {R : α → β → Prop} {S : γ → δ → Prop} {step : Step α} {step' : Step β}
    {f : α → γ} {g : β → δ} (h : Meets E indent R step step') (hfg : ∀ x y, R x y → S (f x) (g y)) :
    Meets E indent S (step.1.map f, step.2) (step'.1.map g, step'.2) := by
  cases h with
  | refused hfault h => exact .refused hfault h
  | unsaved hdeep => exact .unsaved hdeep
  | done hxy h => exact .done (hfg _ _ hxy) h

/-- Saving a tree, when it has been taken over on both sides. -/
theorem Twins.save (h : Twins E indent s t) : Meets E indent Eq s.save t.save := by
  rw [save_of_not_isKept h.isKept]
  by_cases hkept : s.isKept = true
  · rcases Slot.save_spec s.slot s.root with ⟨-, hok⟩ | ⟨hdirectory | hdeep, fault, hfault⟩
    · rw [save_of_ok hkept hok]
      exact .done rfl { h with slot := Slot.noConfusion }
    · exact absurd hdirectory h.slot
    · rw [save_of_error hkept hfault]
      exact .unsaved (h.root.height_eq ▸ hdeep)
  · rw [save_of_not_isKept (Bool.not_eq_true _ ▸ hkept)]
    exact .done rfl h

theorem Twins.commit {root root' : Forest} {u v : Supply} (h : Twins E indent s t)
    (hroot : Forest.Twins E root root') (hsupply : Supply.Twin E u v) :
    Meets E indent Eq ({ s with supply := u }.commit root)
      ({ t with supply := v }.commit root') := by
  unfold Session.commit
  dsimp only
  rw [isEmpty_eq_of_forall₂ h.root, isEmpty_eq_of_forall₂ hroot]
  split
  case isTrue => exact .done rfl { h with supply := hsupply }
  case isFalse =>
    exact Twins.save (s := { s with supply := u, root := root })
      (t := { t with supply := v, root := root' }) { h with root := hroot, supply := hsupply }

/-! ## Looking -/

theorem Twins.get? (h : Twins E indent s t) (path : String) :
    (∃ fault, s.get? path = .error (.digits fault) ∧ t.get? path = .error (.digits fault)) ∨
      ∃ x y, s.get? path = .ok x ∧ t.get? path = .ok y ∧ Option.Rel (Node.Twin E) x y := by
  unfold Session.get?
  rcases (h.root.lookup? path).cases with ⟨fault, hx, hy⟩ | ⟨x, y, hx, hy, hxy⟩
  · rw [hx, hy]
    exact .inl ⟨fault, rfl, rfl⟩
  · rw [hx, hy]
    exact .inr ⟨x, y, rfl, rfl, hxy⟩

theorem Twins.evaluateFormula (h : Twins E indent s t) (formula : String) :
    Meets E indent Eq (s.evaluateFormula formula) (t.evaluateFormula formula) := by
  have heq := Formula.evaluate_eq h.root h.cache h.cache' formula
  have hready := (Formula.evaluate_spec h.cache s.root formula).2
  have hready' := (Formula.evaluate_spec h.cache' t.root formula).2
  unfold Session.evaluateFormula
  dsimp only
  rw [heq]
  cases (Formula.evaluate t.cache t.root formula).1 with
  | error fault => exact .refused rfl { h with cache := hready, cache' := hready' }
  | ok result => exact .done rfl { h with cache := hready, cache' := hready' }

theorem Twins.display (h : Twins E indent s t) (hnm : n.Twin E m) :
    Meets E indent Eq (s.display n) (t.display m) := by
  have heq := hnm.display_eq h.root h.cache h.cache'
  have hready := (Node.display_spec h.cache s.root n).1
  have hready' := (Node.display_spec h.cache' t.root m).1
  unfold Session.display
  dsimp only
  rw [heq]
  cases (m.display t.cache t.root).1 with
  | error fault => exact .refused rfl { h with cache := hready, cache' := hready' }
  | ok text => exact .done rfl { h with cache := hready, cache' := hready' }

theorem Twins.listing {nodes nodes' : List Node} (h : Twins E indent s t) (title : String)
    (hnodes : Forest.Twins E nodes nodes') :
    Meets E indent Eq (s.listing title nodes) (t.listing title nodes') := by
  obtain ⟨heq, hready, hready'⟩ := Listing.text_eq hnodes h.root h.cache h.cache' title
  unfold Session.listing
  dsimp only
  rw [heq]
  cases (Listing.text t.cache t.root title nodes').1 with
  | error fault => exact .refused rfl { h with cache := hready, cache' := hready' }
  | ok text => exact .done rfl { h with cache := hready, cache' := hready' }

theorem Twins.evaluate (h : Twins E indent s t) (path : String) :
    Meets E indent Eq (s.evaluate path) (t.evaluate path) := by
  unfold Session.evaluate
  rcases h.get? path with ⟨fault, hx, hy⟩ | ⟨x, y, hx, hy, hxy⟩
  · rw [hx, hy]
    exact .refused rfl h
  · rw [hx, hy]
    cases hxy with
    | none => exact .done rfl h
    | @some n m hnm =>
      have hdisplay : Meets E indent Eq ((s.display n).1.map .text, (s.display n).2)
          ((t.display m).1.map Evaluation.text, (t.display m).2) :=
        (h.display hnm).map fun _ _ htext ↦ congrArg _ htext
      have hpayload := hnm.payload
      match n, m with
      | ⟨_, _, .leaf v⟩, ⟨_, _, .leaf w⟩ =>
        cases hpayload with
        | leaf hvalue =>
          rcases hvalue.eq_or with rfl | ⟨x, y, rfl, rfl, -⟩
          · cases v with
            | expression formula => exact h.evaluateFormula formula
            | _ => exact hdisplay
          · exact hdisplay
      | ⟨_, _, .branch shape children⟩, ⟨_, _, .branch _ children'⟩ =>
        cases hpayload with
        | branch _ hchildren => exact hdisplay

/-- Moving to the container at a path, for both sessions alike. -/
theorem Twins.navigate (h : Twins E indent s t) (path : String) :
    (∃ fault : SessionFault, fault.isSlot = false ∧ s.navigate path = (.error fault, s) ∧
        t.navigate path = (.error fault, t)) ∨
      ∃ scope scope', List.Forall₂ E scope scope' ∧
        s.navigate path = (.ok (), { s with scope := scope }) ∧
        t.navigate path = (.ok (), { t with scope := scope' }) := by
  unfold Session.navigate
  rcases (h.root.scopeOf? path).cases with ⟨fault, hx, hy⟩ | ⟨x, y, hx, hy, hxy⟩
  · rw [hx, hy]
    exact .inl ⟨_, rfl, rfl, rfl⟩
  · rw [hx, hy]
    cases hxy with
    | none => exact .inl ⟨_, rfl, rfl, rfl⟩
    | some hscope => exact .inr ⟨_, _, hscope, rfl, rfl⟩

/-- Locating a node: it fails or misses for both sessions, or it gives twins. -/
theorem Twins.locate (h : Twins E indent s t) (path : String) :
    (∃ fault : SessionFault, fault.isSlot = false ∧ s.locate path = (.error fault, s) ∧
        t.locate path = (.error fault, t)) ∨
      (s.locate path = (.ok none, s) ∧ t.locate path = (.ok none, t)) ∨
      ∃ n m scope scope', n.Twin E m ∧ List.Forall₂ E scope scope' ∧
        s.locate path = (.ok (some n), { s with scope := scope }) ∧
        t.locate path = (.ok (some m), { t with scope := scope' }) := by
  unfold Session.locate
  rcases h.get? path with ⟨fault, hx, hy⟩ | ⟨x, y, hx, hy, hxy⟩
  · rw [hx, hy]
    exact .inl ⟨_, rfl, rfl, rfl⟩
  · rw [hx, hy]
    cases hxy with
    | none => exact .inr (.inl ⟨rfl, rfl⟩)
    | @some n m hnm =>
      dsimp only
      rcases h.navigate (Path.containerText path) with
        ⟨fault, hfault, hs, ht⟩ | ⟨scope, scope', hscope, hs, ht⟩
      · rw [hs, ht]
        exact .inl ⟨fault, hfault, rfl, rfl⟩
      · rw [hs, ht]
        exact .inr (.inr ⟨n, m, scope, scope', hnm, hscope, rfl, rfl⟩)

/-! ## Changing -/

theorem Twins.set {value : Raw} (h : Twins E indent s t) (path kindName : String)
    (hvalue : ¬ value.HoldsNode) :
    Meets E indent Eq (s.set path value kindName) (t.set path value kindName) := by
  unfold Session.set
  cases Path.parse path with
  | error fault => exact .refused rfl h
  | ok p =>
    cases hcoerce : boundedCoerce callLimit kindName value with
    | error fault => cases fault <;> exact .refused rfl h
    | ok payload =>
      have hbare := isBare_of_coerce hvalue (coerce_of_boundedCoerce hcoerce)
      rcases (h.root.boundedPut h.supply p hbare).cases with
        ⟨fault, hx, hy⟩ | ⟨x, y, hx, hy, hroot, houtcome, hsupply⟩
      · simp only [Except.mapError, hx, hy]
        exact .refused rfl h
      · simp only [Except.mapError, hx, hy, houtcome]
        split
        case isTrue => exact (h.commit hroot hsupply).map fun _ _ _ ↦ rfl
        case isFalse => exact .done rfl { h with supply := hsupply }

theorem Twins.applyTrigger (h : Twins E indent s t) (params : Trigger.Params) :
    Meets E indent (fun a b ↦ a.message = b.message) (s.applyTrigger params)
      (t.applyTrigger params) := by
  unfold Session.applyTrigger
  rcases (Trigger.apply_twins h.root h.supply params).cases with
    ⟨fault, hx, hy⟩ | ⟨⟨effect, u⟩, ⟨effect', v⟩, hx, hy, hroot, houtcome, hmessage, hsupply⟩
  · rw [hx, hy]
    exact .refused rfl h
  · rw [hx, hy]
    dsimp only at houtcome ⊢
    rw [Trigger.Effect.isApplied, Trigger.Effect.isApplied, houtcome]
    split
    case isTrue => exact (h.commit hroot hsupply).map fun _ _ _ ↦ hmessage
    case isFalse => exact .done hmessage { h with supply := hsupply }

theorem Twins.useLink {Address : Type} (h : Twins E indent s t)
    (taken : Except UrlFault (Trigger.Link Address)) :
    Meets E indent (fun a b ↦ a.1.message = b.1.message) (s.useLink taken) (t.useLink taken) := by
  cases taken with
  | error fault => exact .refused rfl h
  | ok taken => exact (h.applyTrigger _).map fun _ _ hmessage ↦ hmessage

section Scopes

variable (hE : IsPairing E) (hscope : List.Forall₂ E s.scope t.scope)

include hE hscope

theorem Twins.nodes (h : Twins E indent s t) : Forest.Twins E s.nodes t.nodes :=
  h.root.within hE hscope

theorem Twins.add {value : Raw} (h : Twins E indent s t) (name kindName : String)
    (hvalue : ¬ value.HoldsNode) :
    Meets E indent (Node.Twin E) (s.add name kindName value) (t.add name kindName value) := by
  unfold Session.add
  have hdead : (!s.scope.isEmpty && s.container?.isNone) =
      (!t.scope.isEmpty && t.container?.isNone) := by
    have hcontainer : s.container?.isSome = t.container?.isSome :=
      isSome_eq_of_rel (h.root.container? hE hscope)
    rw [isEmpty_eq_of_forall₂ hscope, ← Option.not_isSome, ← Option.not_isSome, hcontainer]
  rw [hdead]
  split
  case isTrue => exact .refused rfl h
  case isFalse =>
    have hadd : Alike (Forest.Twins E) (s.root.boundedAdd s.supply name kindName value s.scope)
        (t.root.boundedAdd t.supply name kindName value t.scope) :=
      h.root.boundedAdd hE hscope h.supply hvalue
    rcases hadd.cases with ⟨fault, hx, hy⟩ | ⟨x, y, hx, hy, hxy⟩
    · rw [hx, hy]
      cases fault <;> exact .refused rfl h
    · have hfind : Option.Rel (Node.Twin E)
          ((Forest.within x s.scope).find? fun n ↦ !(s.nodes.map (·.id)).contains n.id)
          ((Forest.within y t.scope).find? fun n ↦ !(t.nodes.map (·.id)).contains n.id) := by
        apply rel_find? (hxy.within hE hscope)
        intro n m hnm
        rw [(h.nodes hE hscope).contains_eq hE hnm.id]
      rw [hx, hy]
      dsimp only
      rcases none_or_some_of_rel hfind with ⟨hn, hm⟩ | ⟨n, m, hn, hm, hnm⟩
      · rw [hn, hm]
        exact .refused rfl h
      · rw [hn, hm]
        exact (h.commit hxy (h.supply.skip 1)).map fun _ _ _ ↦ hnm

theorem Twins.edit {i j : String} {value : Raw} (h : Twins E indent s t) (hij : E i j)
    (hvalue : ¬ value.HoldsNode) : Meets E indent Eq (s.edit i value) (t.edit j value) := by
  unfold Session.edit
  rcases (h.root.edit hE hij hscope hvalue).cases with ⟨fault, hx, hy⟩ | ⟨x, y, hx, hy, hxy⟩
  · rw [hx, hy]
    cases fault <;> exact .refused rfl h
  · rw [hx, hy]
    exact h.commit hxy h.supply

theorem Twins.remove {i j : String} (h : Twins E indent s t) (hij : E i j) :
    Meets E indent Eq (s.remove i) (t.remove j) := by
  unfold Session.remove
  rcases (h.root.boundedDelete hE hij hscope).cases with ⟨fault, hx, hy⟩ | ⟨x, y, hx, hy, hxy⟩
  · rw [hx, hy]
    cases fault <;> exact .refused rfl h
  · rw [hx, hy]
    exact h.commit hxy h.supply

end Scopes

theorem Twins.importSource (h : Twins E indent s t) (source : Json.Source) :
    Meets E indent Eq (s.importSource source) (t.importSource source) := by
  unfold Session.importSource Session.replace
  rcases (Forest.ofSource_twins h.supply source).cases with
    ⟨fault, hx, hy⟩ | ⟨⟨root, u⟩, ⟨root', v⟩, hx, hy, hroot, hsupply⟩
  · rw [hx, hy]
    exact .refused rfl h
  · have hcommit := h.commit hroot hsupply
    rw [hx, hy]
    dsimp only
    generalize { s with supply := u }.commit root = step at hcommit ⊢
    generalize { t with supply := v }.commit root' = step' at hcommit ⊢
    cases hcommit with
    | refused hfault h => exact .refused hfault h
    | @unsaved fault s t y hdeep =>
      cases y
      exact .unsaved hdeep
    | @done x y s t hxy h =>
      exact .done rfl { h with }

theorem Twins.exportText_eq (h : Twins E indent s t) : s.exportText = t.exportText := by
  unfold Session.exportText
  rw [h.exportIndent, h.exportIndent', h.root.exportText_eq, h.root.isExportable_eq]

end Session

end KeyTree
