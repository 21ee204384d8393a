import KeyTree.Proofs.Formula.Evaluation
import KeyTree.Session

/-!
# Evaluations of a session

Looking up, evaluating and showing come to a result, whatever has been evaluated before, except
where a path overruns the tree: there a segment that names no sibling has more digits than are read.
A formula also comes to nothing if a container that it refers to nests too deeply to become a text.
-/

namespace KeyTree.Session

variable {s : Session}

theorem get?_error_iff {path : String} :
    (∃ fault, s.get? path = .error fault) ↔ s.root.OverrunsAt path :=
  exists_mapError_eq_error.trans Forest.lookup?_error_iff

theorem evaluateFormula_error_iff (hcache : s.cache.IsReady) {formula : String} :
    (∃ fault, (s.evaluateFormula formula).1 = .error fault) ↔
      Formula.ComesToNothing s.root formula :=
  exists_mapError_eq_error.trans (Formula.evaluate_error_iff hcache)

theorem display_error_iff (hcache : s.cache.IsReady) {n : Node} :
    (∃ fault, (s.display n).1 = .error fault) ↔
      ∃ formula, n.payload = .leaf (.expression formula) ∧ Formula.ComesToNothing s.root formula :=
  exists_mapError_eq_error.trans (Node.display_spec hcache s.root n).2

/-- The node at a path comes to a result, unless the path overruns the tree or its formula comes to
nothing. -/
theorem evaluate_error_iff (hcache : s.cache.IsReady) {path : String} :
    (∃ fault, (s.evaluate path).1 = .error fault) ↔ s.root.OverrunsAt path ∨
      ∃ n formula, s.root.lookup? path = .ok (some n) ∧ n.payload = .leaf (.expression formula) ∧
        Formula.ComesToNothing s.root formula := by
  unfold evaluate
  cases hlookup : s.root.lookup? path with
  | error fault =>
    have hget : s.get? path = .error (.digits fault) := by
      rw [get?, hlookup]
      rfl
    rw [hget]
    exact iff_of_true ⟨_, rfl⟩ (.inl (Forest.lookup?_error_iff.1 ⟨fault, hlookup⟩))
  | ok found =>
    have hget : s.get? path = .ok found := by
      rw [get?, hlookup]
      rfl
    have hinside : ¬ s.root.OverrunsAt path := by
      rw [← get?_error_iff, hget]
      rintro ⟨fault, h⟩
      cases h
    rw [hget, or_iff_right hinside]
    cases found with
    | none =>
      apply iff_of_false
      · rintro ⟨fault, h⟩
        cases h
      · rintro ⟨n, formula, h, -⟩
        cases h
    | some n =>
      have hfound : (∃ n' formula, (Except.ok (some n) : Except TooManyDigits _) = .ok (some n') ∧
          n'.payload = .leaf (.expression formula) ∧ Formula.ComesToNothing s.root formula) ↔
          ∃ formula, n.payload = .leaf (.expression formula) ∧ Formula.ComesToNothing s.root formula := by
        constructor
        · rintro ⟨n', formula, h, hformula⟩
          obtain rfl := Option.some.inj (Except.ok.inj h)
          exact ⟨formula, hformula⟩
        · rintro ⟨formula, hformula⟩
          exact ⟨n, formula, rfl, hformula⟩
      rw [hfound]
      dsimp only
      split
      case h_1 formula hpayload =>
        rw [Payload.exists_expression_iff hpayload]
        exact evaluateFormula_error_iff hcache
      case h_2 => exact exists_map_eq_error.trans (display_error_iff hcache)

/--
After any evaluations, a lookup has no result just where it overruns the tree, and an evaluation just
where its first reference that is not filled in does so or leads to a container that nests too deeply.
In all other cases a reference that leads nowhere and arithmetic without a value are results.
-/
theorem evaluations_error_iff (hcache : s.cache.IsReady) :
    (∀ capacity, 0 < capacity → (Arithmetic.Cache.ofCapacity capacity).IsReady) ∧
    (∀ path, (∃ fault, s.root.lookup? path = .error fault) ↔ s.root.OverrunsAt path) ∧
    (∀ formula, (Formula.evaluate s.cache s.root formula).2.IsReady ∧
      ((∃ fault, (Formula.evaluate s.cache s.root formula).1 = .error fault) ↔
        Formula.ComesToNothing s.root formula)) ∧
    (∀ n : Node, (n.display s.cache s.root).2.IsReady ∧
      ((∃ fault, (n.display s.cache s.root).1 = .error fault) ↔
        ∃ formula, n.payload = .leaf (.expression formula) ∧ Formula.ComesToNothing s.root formula)) ∧
    (∀ path, (∃ fault, (s.evaluate path).1 = .error fault) ↔ s.root.OverrunsAt path ∨
      ∃ n formula, s.root.lookup? path = .ok (some n) ∧ n.payload = .leaf (.expression formula) ∧
        Formula.ComesToNothing s.root formula) ∧
    (∀ formula, (∃ fault, (s.evaluateFormula formula).1 = .error fault) ↔
      Formula.ComesToNothing s.root formula) ∧
    (∀ formula before path after,
      Formula.pieces formula.toList = before ++ .reference path :: after →
      (∀ piece ∈ before, ∃ text, piece.fill s.root = .ok text) →
      s.root.lookup? (String.ofList path) = .ok none →
      (Formula.evaluate s.cache s.root formula).1 = .ok (.missing (String.ofList path))) ∧
    ∀ formula filled fault, (Formula.pieces formula.toList).any Formula.Piece.isReference = true →
      Formula.fill s.root (Formula.pieces formula.toList) = .ok filled →
      Formula.isArithmetic filled = true →
      Arithmetic.value callLimit (String.ofList filled) = .error fault →
      (Formula.evaluate s.cache s.root formula).1 = .ok (.failure fault.message) := by
  have houtcome (formula : String) := Formula.evaluate_spec hcache s.root formula
  refine ⟨?_, ?_, ?_, ?_, ?_, ?_, ?_, ?_⟩
  · intro capacity hcapacity
    exact Arithmetic.Cache.isReady_ofCapacity hcapacity
  · intro path
    exact Forest.lookup?_error_iff
  · intro formula
    exact ⟨(houtcome formula).2, Formula.evaluate_error_iff hcache⟩
  · intro n
    exact Node.display_spec hcache s.root n
  · intro path
    exact evaluate_error_iff hcache
  · intro formula
    exact evaluateFormula_error_iff hcache
  · intro formula before path after hpieces hbefore hpath
    rw [(houtcome formula).1]
    exact Formula.outcome_of_missing hpieces hbefore hpath
  · intro formula filled fault hreference hfill harithmetic hvalue
    rw [(houtcome formula).1]
    exact Formula.outcome_of_fault hreference hfill harithmetic hvalue

/-- In an empty tree a letter is missing, and too many digits come to nothing. -/
theorem evaluations_error_of_empty :
    (Formula.evaluate (.ofCapacity 256) [] "\x7b\x7ba\x7d\x7d").1 = .ok (.missing "a") ∧
    ∃ fault, ((start (.standard "/home/user") [] .missing true ⟨0⟩).evaluate
      (String.ofList (List.replicate 4301 '1'))).1 = .error fault := by
  let empty := start (.standard "/home/user") [] .missing true ⟨0⟩
  have hcache : empty.cache.IsReady := Arithmetic.Cache.isReady_ofCapacity (by decide)
  obtain ⟨-, -, -, -, hevaluate, -, hmissing, -⟩ := evaluations_error_iff hcache
  have hpieces : Formula.pieces "\x7b\x7ba\x7d\x7d".toList = [.reference ['a']] :=
    @Formula.pieces_reference ['a'] (List.cons_ne_nil 'a' [])
      (List.forall_mem_singleton.2 (by decide))
  constructor
  · apply hmissing "\x7b\x7ba\x7d\x7d" [] ['a'] [] hpieces
    · intro piece hpiece
      cases hpiece
    · rfl
  · apply (hevaluate _).2
    exact .inl (Forest.overrunsAt_replicate (Nat.lt_succ_self 4300) rfl)

/-- A reference of 4301 digits comes to no result in an empty tree, nor does its path. -/
theorem exists_evaluation_error :
    (∃ fault, Forest.lookup? [] (String.ofList (List.replicate 4301 '1')) = .error fault) ∧
    ∃ fault, (Formula.evaluate (.ofCapacity 1) []
      (String.ofList ('{' :: '{' :: List.replicate 4301 '1' ++ ['}', '}']))).1 = .error fault := by
  have hcount : TooManyDigits.limit < 4301 := Nat.lt_succ_self 4300
  constructor
  · exact Forest.lookup?_error_iff.2 (Forest.overrunsAt_replicate hcount rfl)
  · apply (Formula.evaluate_error_iff (Arithmetic.Cache.isReady_ofCapacity Nat.one_pos)).2
    exact Formula.comesToNothing_replicate hcount rfl

end KeyTree.Session
