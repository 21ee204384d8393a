import KeyTree.Formula.Evaluation
import KeyTree.Proofs.Arithmetic.Cache
import KeyTree.Proofs.Number.Digits
import KeyTree.Proofs.Results
import KeyTree.Proofs.Tree.Lookup

/-!
# What formulas come to

What a formula comes to depends on the tree and not on what the cache has seen. Every formula comes
to a result, if only a failure, unless the first reference that is not filled in overruns the tree or
leads to a container that nests too deeply to become a text.
-/

namespace KeyTree

namespace Arithmetic.Cache

/-- A cache whose programs were read by calls for the values of formulas. -/
def IsReady (cache : Cache) : Prop := cache.IsReadyFor (callLimit - 1)

theorem isReady_ofCapacity {capacity : Nat} (h : 0 < capacity) : (ofCapacity capacity).IsReady :=
  isReadyFor_ofCapacity h

theorem IsReady.evaluate_spec {cache : Cache} (h : cache.IsReady) (source : String) :
    (cache.evaluate callLimit source).1 = (value callLimit source).mapError .arithmetic ∧
      (cache.evaluate callLimit source).2.IsReady :=
  IsReadyFor.evaluate_spec h source

end Arithmetic.Cache

namespace Formula

variable {cache : Arithmetic.Cache} {root : Forest}

/-- What a text that has been filled in comes to. -/
def settled (filled : List Char) : Evaluation :=
  if isArithmetic filled then
    match Arithmetic.value callLimit (String.ofList filled) with
    | .ok x => .number x
    | .error fault => .failure fault.message
  else .text (String.ofList filled)

/-- What a formula comes to without a cache. -/
def outcome (root : Forest) (formula : String) : Except EvaluationFault Evaluation :=
  let parts := pieces formula.toList
  if parts.any Piece.isReference then
    match fill root parts with
    | .ok filled => .ok (settled filled)
    | .error (.missing path) => .ok (.missing path)
    | .error (.tooManyDigits fault) => .error (.tooManyDigits fault)
    | .error .tooDeep => .error .tooDeep
  else .ok (.text formula)

theorem settle_spec (hcache : cache.IsReady) (filled : List Char) :
    (settle cache filled).1 = .ok (settled filled) ∧ (settle cache filled).2.IsReady := by
  obtain ⟨hvalue, hready⟩ := hcache.evaluate_spec (String.ofList filled)
  unfold settle settled
  by_cases harithmetic : isArithmetic filled = true
  · dsimp only
    rw [if_pos harithmetic, if_pos harithmetic, hvalue]
    cases Arithmetic.value callLimit (String.ofList filled) with
    | ok x => exact ⟨rfl, hready⟩
    | error fault => exact ⟨rfl, hready⟩
  · dsimp only
    rw [if_neg harithmetic, if_neg harithmetic]
    exact ⟨rfl, hcache⟩

/-- What a formula comes to does not depend on the cache. -/
theorem evaluate_spec (hcache : cache.IsReady) (root : Forest) (formula : String) :
    (evaluate cache root formula).1 = outcome root formula ∧
      (evaluate cache root formula).2.IsReady := by
  unfold evaluate outcome
  dsimp only
  split
  · cases fill root (pieces formula.toList) with
    | ok filled => exact settle_spec hcache filled
    | error fault =>
      cases fault with
      | missing path => exact ⟨rfl, hcache⟩
      | tooManyDigits fault => exact ⟨rfl, hcache⟩
      | tooDeep => exact ⟨rfl, hcache⟩
  · exact ⟨rfl, hcache⟩

/-! ## Formulas that come to nothing -/

/-- A path to a node that nests too deeply to become a text. -/
def LeadsTooDeep (root : Forest) (path : List Char) : Prop :=
  ∃ n, root.lookup? (String.ofList path) = .ok (some n) ∧ n.isRenderable = false

/-- A formula whose first reference that is not filled in overruns the tree or leads too deep. -/
def ComesToNothing (root : Forest) (formula : String) : Prop :=
  ∃ before path after, pieces formula.toList = before ++ .reference path :: after ∧
    (∀ piece ∈ before, ∃ text, piece.fill root = .ok text) ∧
    (root.OverrunsAt (String.ofList path) ∨ LeadsTooDeep root path)

/-- The first reference that is not filled in decides. -/
theorem fill_eq_error {formula : String} {before after : List Piece} {path : List Char}
    {fault : FillFault} (hpieces : pieces formula.toList = before ++ .reference path :: after)
    (hbefore : ∀ piece ∈ before, ∃ text, piece.fill root = .ok text)
    (hpiece : (Piece.reference path).fill root = .error fault) :
    (pieces formula.toList).any Piece.isReference = true ∧
      fill root (pieces formula.toList) = .error fault := by
  constructor
  · rw [hpieces, List.any_append, List.any_cons]
    exact Bool.or_true _
  · rw [fill, hpieces, mapM_eq_error hbefore hpiece]
    rfl

theorem mapM_fill_eq_error {parts : List Piece} {fault : FillFault}
    (h : fill root parts = .error fault) : parts.mapM (Piece.fill root) = .error fault := by
  unfold fill at h
  cases hparts : parts.mapM (Piece.fill root) with
  | ok texts =>
    rw [hparts] at h
    cases h
  | error fault' =>
    rw [hparts] at h
    rw [Except.error.inj h]

/-- A leaf becomes a text in one call. -/
theorem isRenderable_of_leaf {n : Node} {value : Leaf} (h : n.payload = .leaf value) :
    n.isRenderable = true := by
  obtain ⟨id, name, payload⟩ := n
  dsimp only at h
  have hlimit : 1 ≤ callLimit := by decide
  rw [h]
  exact decide_eq_true hlimit

theorem fill_of_isRenderable {path : List Char} {n : Node}
    (hlookup : root.lookup? (String.ofList path) = .ok (some n)) (hn : n.isRenderable = true) :
    (Piece.reference path).fill root = .ok n.rendered.toList := by
  rw [Piece.fill, hlookup]
  exact if_pos hn

theorem fill_of_not_isRenderable {path : List Char} {n : Node}
    (hlookup : root.lookup? (String.ofList path) = .ok (some n)) (hn : n.isRenderable = false) :
    (Piece.reference path).fill root = .error .tooDeep := by
  rw [Piece.fill, hlookup]
  exact if_neg (Bool.eq_false_iff.1 hn)

theorem leadsTooDeep_of_fill {piece : Piece} (h : piece.fill root = .error .tooDeep) :
    ∃ path, piece = .reference path ∧ LeadsTooDeep root path := by
  cases piece with
  | char c => cases h
  | reference path =>
    rw [Piece.fill] at h
    split at h
    case h_1 => cases h
    case h_2 => cases h
    case h_3 n hlookup =>
      split at h
      case isTrue => cases h
      case isFalse hn => exact ⟨path, rfl, n, hlookup, Bool.eq_false_iff.2 hn⟩

theorem exists_lookup?_of_fill {piece : Piece} {fault : TooManyDigits}
    (h : piece.fill root = .error (.tooManyDigits fault)) :
    ∃ path, piece = .reference path ∧ root.lookup? (String.ofList path) = .error fault := by
  cases piece with
  | char c => cases h
  | reference path =>
    rw [Piece.fill] at h
    split at h
    case h_1 hlookup =>
      obtain rfl := FillFault.tooManyDigits.inj (Except.error.inj h)
      exact ⟨path, rfl, hlookup⟩
    case h_2 => cases h
    case h_3 => split at h <;> cases h

/-- A reference that leads too deep leaves no result. -/
theorem outcome_of_tooDeep {formula : String} {before after : List Piece} {path : List Char}
    (hpieces : pieces formula.toList = before ++ .reference path :: after)
    (hbefore : ∀ piece ∈ before, ∃ text, piece.fill root = .ok text)
    (hpiece : (Piece.reference path).fill root = .error .tooDeep) :
    outcome root formula = .error .tooDeep := by
  obtain ⟨hreference, hfill⟩ := fill_eq_error hpieces hbefore hpiece
  unfold outcome
  dsimp only
  rw [if_pos hreference, hfill]

/-- Every formula comes to a result, or is cut off at a reference. -/
theorem outcome_error_iff {formula : String} :
    (∃ fault, outcome root formula = .error fault) ↔ ComesToNothing root formula := by
  constructor
  · rintro ⟨fault, h⟩
    unfold outcome at h
    dsimp only at h
    split at h
    case isFalse => cases h
    case isTrue =>
      cases hfill : fill root (pieces formula.toList) with
      | ok filled =>
        rw [hfill] at h
        cases h
      | error fillFault =>
        cases fillFault with
        | missing path =>
          rw [hfill] at h
          cases h
        | tooManyDigits fault' =>
          obtain ⟨before, piece, after, hpieces, hbefore, hpiece⟩ :=
            exists_of_mapM_error (mapM_fill_eq_error hfill)
          obtain ⟨path, rfl, hlookup⟩ := exists_lookup?_of_fill hpiece
          exact ⟨before, path, after, hpieces, hbefore,
            .inl (Forest.lookup?_error_iff.1 ⟨_, hlookup⟩)⟩
        | tooDeep =>
          obtain ⟨before, piece, after, hpieces, hbefore, hpiece⟩ :=
            exists_of_mapM_error (mapM_fill_eq_error hfill)
          obtain ⟨path, rfl, hdeep⟩ := leadsTooDeep_of_fill hpiece
          exact ⟨before, path, after, hpieces, hbefore, .inr hdeep⟩
  · rintro ⟨before, path, after, hpieces, hbefore, hoverruns | ⟨n, hlookup, hn⟩⟩
    · obtain ⟨fault, hlookup⟩ := Forest.lookup?_error_iff.2 hoverruns
      have hpiece : (Piece.reference path).fill root = .error (.tooManyDigits fault) := by
        rw [Piece.fill, hlookup]
      obtain ⟨hreference, hfill⟩ := fill_eq_error hpieces hbefore hpiece
      refine ⟨.tooManyDigits fault, ?_⟩
      unfold outcome
      dsimp only
      rw [if_pos hreference, hfill]
    · exact ⟨.tooDeep, outcome_of_tooDeep hpieces hbefore (fill_of_not_isRenderable hlookup hn)⟩

/-- A reference that leads nowhere is named in the result. -/
theorem outcome_of_missing {formula : String} {before after : List Piece} {path : List Char}
    (hpieces : pieces formula.toList = before ++ .reference path :: after)
    (hbefore : ∀ piece ∈ before, ∃ text, piece.fill root = .ok text)
    (hpath : root.lookup? (String.ofList path) = .ok none) :
    outcome root formula = .ok (.missing (String.ofList path)) := by
  have hpiece : (Piece.reference path).fill root = .error (.missing (String.ofList path)) := by
    rw [Piece.fill, hpath]
  obtain ⟨hreference, hfill⟩ := fill_eq_error hpieces hbefore hpiece
  unfold outcome
  dsimp only
  rw [if_pos hreference, hfill]

/-- Arithmetic that has no value is a result that says why. -/
theorem outcome_of_fault {formula : String} {filled : List Char} {fault : Arithmetic.Fault}
    (hreference : (pieces formula.toList).any Piece.isReference = true)
    (hfill : fill root (pieces formula.toList) = .ok filled)
    (harithmetic : isArithmetic filled = true)
    (hvalue : Arithmetic.value callLimit (String.ofList filled) = .error fault) :
    outcome root formula = .ok (.failure fault.message) := by
  have hsettled : settled filled = .failure fault.message := by
    unfold settled
    rw [if_pos harithmetic, hvalue]
  unfold outcome
  dsimp only
  rw [if_pos hreference, hfill]
  dsimp only
  rw [hsettled]

theorem evaluate_error_iff (hcache : cache.IsReady) {formula : String} :
    (∃ fault, (evaluate cache root formula).1 = .error fault) ↔
      ComesToNothing root formula := by
  rw [(evaluate_spec hcache root formula).1]
  exact outcome_error_iff

/-! ## A reference alone -/

theorem pieces_of_scanReference?_none {c : Char} {rest : List Char}
    (h : scanReference? (c :: rest) = none) : pieces (c :: rest) = .char c :: pieces rest := by
  rw [pieces]
  split
  case h_1 h' =>
    rw [h] at h'
    cases h'
  case h_2 => rfl

theorem scanReference?_append {path : List Char} (hnonempty : path ≠ [])
    (hchars : ∀ c ∈ path, isReferenceChar c = true) (after : List Char) :
    scanReference? ('{' :: '{' :: path ++ '}' :: '}' :: after) = some (path, after) := by
  have hclosing : ∀ c ∈ ('}' :: '}' :: after).head?, isReferenceChar c = false := by
    intro c hc
    obtain rfl : '}' = c := Option.some.inj hc
    decide
  obtain ⟨htake, hdrop⟩ := Text.takeWhile_append_of_head hchars hclosing
  rw [List.cons_append, List.cons_append, scanReference?]
  simp only [htake, hdrop, List.isEmpty_eq_false_iff.2 hnonempty]

theorem pieces_reference_append {path : List Char} (hnonempty : path ≠ [])
    (hchars : ∀ c ∈ path, isReferenceChar c = true) (after : List Char) :
    pieces ('{' :: '{' :: path ++ '}' :: '}' :: after) = .reference path :: pieces after := by
  have hscan := scanReference?_append hnonempty hchars after
  rw [List.cons_append, List.cons_append] at hscan ⊢
  rw [pieces]
  split
  case h_1 path' after' h =>
    rw [hscan] at h
    obtain ⟨rfl, rfl⟩ := Prod.mk.inj (Option.some.inj h)
    rfl
  case h_2 h =>
    rw [hscan] at h
    cases h

theorem pieces_reference {path : List Char} (hnonempty : path ≠ [])
    (hchars : ∀ c ∈ path, isReferenceChar c = true) :
    pieces ('{' :: '{' :: path ++ ['}', '}']) = [.reference path] := by
  rw [pieces_reference_append hnonempty hchars, pieces]

/-- A reference that overruns the tree, alone in a formula. -/
theorem comesToNothing_replicate {count : Nat} (hcount : TooManyDigits.limit < count)
    (hroot : root.named? (String.ofList (List.replicate count '1')) = none) :
    ComesToNothing root (String.ofList ('{' :: '{' :: List.replicate count '1' ++ ['}', '}'])) := by
  have hnonempty : List.replicate count '1' ≠ [] := by
    rw [ne_eq, List.replicate_eq_nil_iff]
    rintro rfl
    exact Nat.not_lt_zero _ hcount
  have hchars : ∀ c ∈ List.replicate count '1', isReferenceChar c = true := by
    intro c hc
    rw [List.eq_of_mem_replicate hc]
    decide
  refine ⟨[], List.replicate count '1', [], ?_, ?_, .inl (Forest.overrunsAt_replicate hcount hroot)⟩
  · rw [String.toList_ofList, pieces_reference hnonempty hchars]
    rfl
  · intro piece hpiece
    cases hpiece

end Formula

theorem Payload.exists_expression_iff {payload : Payload Node} {formula : String}
    {P : String → Prop} (h : payload = .leaf (.expression formula)) :
    (∃ formula', payload = .leaf (.expression formula') ∧ P formula') ↔ P formula := by
  constructor
  · rintro ⟨formula', h', hP⟩
    rw [h] at h'
    obtain rfl := Leaf.expression.inj (Payload.leaf.inj h')
    exact hP
  · intro hP
    exact ⟨formula, h, hP⟩

/-- Something is shown for every node, unless its formula comes to nothing. -/
theorem Node.display_spec {cache : Arithmetic.Cache} (hcache : cache.IsReady) (root : Forest)
    (n : Node) : (n.display cache root).2.IsReady ∧
      ((∃ fault, (n.display cache root).1 = .error fault) ↔
        ∃ formula, n.payload = .leaf (.expression formula) ∧
          Formula.ComesToNothing root formula) := by
  unfold display
  split
  case h_1 formula hpayload =>
    refine ⟨(Formula.evaluate_spec hcache root formula).2, ?_⟩
    rw [Payload.exists_expression_iff hpayload]
    exact exists_map_eq_error.trans (Formula.evaluate_error_iff hcache)
  case h_2 value hvalue hpayload =>
    refine ⟨hcache, iff_of_false ?_ ?_⟩
    · rintro ⟨fault, h⟩
      cases h
    · rintro ⟨formula, hpayload', -⟩
      rw [hpayload] at hpayload'
      exact hvalue formula (Payload.leaf.inj hpayload')
  case h_3 shape children hpayload =>
    refine ⟨hcache, iff_of_false ?_ ?_⟩
    · rintro ⟨fault, h⟩
      cases h
    · rintro ⟨formula, hpayload', -⟩
      rw [hpayload] at hpayload'
      cases hpayload'

end KeyTree
