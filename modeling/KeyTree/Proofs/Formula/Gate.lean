import KeyTree.Proofs.Arithmetic.Literal
import KeyTree.Proofs.Formula.References

/-!
# Numbers on their way to arithmetic

A text of plain digits, points and blanks is computed if it looks like a number. What looks like a
number is one numeral, so it is read as an expression too, and its value is the number. The only
expressions that do not look like numbers have an information separator among their blanks. So a
filled-in formula without operators and parentheses fails only if it is blank.
-/

namespace KeyTree.Formula

open Arithmetic

section

variable {s : List Char}

theorem looksNumeric_of_not_blank (hsome : s.all Text.isBlank = false) :
    looksNumeric s = true ↔ ∃ x, Number.read? (String.ofList s) = some x := by
  rw [looksNumeric, hsome, Bool.false_or, Option.isSome_iff_exists]

variable (hs : Numeral.IsNumeralText s)

include hs

theorem looksNumeric_iff_surrounded (hsome : s.all Text.isBlank = false) :
    looksNumeric s = true ↔ ∃ n : Numeral, n.Surrounded Number.isMargin s := by
  rw [looksNumeric_of_not_blank hsome]
  constructor
  · rintro ⟨x, hread⟩
    obtain ⟨n, hsurrounded, -⟩ := (Number.read?_eq_some_iff_surrounded hs x).mp hread
    exact ⟨n, hsurrounded⟩
  · rintro ⟨n, hsurrounded⟩
    exact ⟨_, Number.read?_of_surrounded hsurrounded⟩

theorem exists_parse_iff_surrounded (room : Nat) :
    (∃ p, parse room (String.ofList s) = .ok p) ↔ ∃ n : Numeral, n.Surrounded Text.isBlank s := by
  constructor
  · rintro ⟨p, hparse⟩
    obtain ⟨n, hsurrounded, -⟩ := (parse_eq_ok_iff_surrounded room hs p).mp hparse
    exact ⟨n, hsurrounded⟩
  · rintro ⟨n, hsurrounded⟩
    exact ⟨_, parse_of_surrounded hsurrounded room⟩

end

/-- What looks like a number is read as the same number by both readers. -/
theorem exists_literal_of_looksNumeric {s : List Char} (hs : Numeral.IsNumeralText s)
    (hsome : s.all Text.isBlank = false) (h : looksNumeric s = true) (room : Nat) :
    ∃ x, Number.read? (String.ofList s) = some x ∧
      parse room (String.ofList s) = .ok (.literal x) := by
  obtain ⟨n, hsurrounded⟩ := (looksNumeric_iff_surrounded hs hsome).mp h
  exact ⟨n.toFloat, Number.read?_of_surrounded hsurrounded,
    parse_of_surrounded (Numeral.surrounded_isMargin_iff.mp hsurrounded).1 room⟩

/-! ## Texts without marks -/

/-- What may be computed, but has no mark, is made of digits, points and blanks. -/
theorem isNumeralText_of_not_isMark {s : List Char} (hmark : s.any isMark = false)
    (hchars : s.all isArithmeticChar = true) : Numeral.IsNumeralText s := by
  intro c hc
  have hchar := List.all_eq_true.mp hchars c hc
  have hnone : isMark c = false := by
    rw [← Bool.not_eq_true]
    exact List.any_eq_false.mp hmark c hc
  rw [isArithmeticChar, hnone, Bool.false_and, Bool.or_false, Bool.or_eq_true] at hchar
  exact hchar

theorem value_of_all_isBlank {s : List Char} (h : s.all Text.isBlank = true) (room : Nat) :
    Arithmetic.value room (String.ofList s) = .error .empty := by
  have htokens : tokensFrom 0 s = .ok [] := by
    rw [← List.append_nil s, tokensFrom_blanks (List.all_eq_true.mp h), tokensFrom_nil]
  rw [Arithmetic.value, parse, tokens, String.toList_ofList, htokens]
  rfl

theorem value_of_parse_literal {source : String} {x : Float}
    (h : parse (callLimit - 1) source = .ok (.literal x)) :
    Arithmetic.value callLimit source = .ok x := by
  have hdepth : (Program.literal x).depth ≤ callLimit := by
    change 1 ≤ callLimit
    decide
  rw [Arithmetic.value, h]
  change (Program.literal x).evaluate callLimit = .ok x
  rw [Program.evaluate, if_pos hdepth]
  rfl

/-- Blanks alone fail, and every other text without marks is a number or stays a text. -/
theorem settled_of_not_isMark {filled : List Char} (hmark : filled.any isMark = false) :
    (∃ message, settled filled = .failure message) ↔
      filled ≠ [] ∧ filled.all Text.isBlank = true := by
  unfold settled
  split
  case isTrue harithmetic =>
    simp only [isArithmetic, hmark, Bool.false_or, Bool.and_eq_true, Bool.not_eq_true',
      List.isEmpty_eq_false_iff] at harithmetic
    obtain ⟨⟨hnumeric, hsome⟩, hchars⟩ := harithmetic
    cases hblank : filled.all Text.isBlank with
    | true =>
      rw [value_of_all_isBlank hblank]
      exact iff_of_true ⟨_, rfl⟩ ⟨hsome, rfl⟩
    | false =>
      obtain ⟨x, -, hparse⟩ := exists_literal_of_looksNumeric
        (isNumeralText_of_not_isMark hmark hchars) hblank hnumeric (callLimit - 1)
      rw [value_of_parse_literal hparse]
      exact iff_of_false (fun ⟨_, h⟩ ↦ by cases h) (fun ⟨_, h⟩ ↦ Bool.noConfusion h)
  case isFalse harithmetic =>
    refine iff_of_false (fun ⟨_, h⟩ ↦ by cases h) ?_
    rintro ⟨hsome, hblank⟩
    apply harithmetic
    have hchars : filled.all isArithmeticChar = true := by
      rw [List.all_eq_true] at hblank ⊢
      intro c hc
      rw [isArithmeticChar, hblank c hc, Bool.or_true]
    rw [isArithmetic, looksNumeric, hblank, hchars, List.isEmpty_eq_false_iff.mpr hsome,
      Bool.true_or, Bool.or_true]
    rfl

/-- A formula whose references lead to nodes is filled in, unless one of them leads too deep. -/
theorem exists_fill {root : Forest} {formula : String}
    (h : ∀ path, Mentions formula path → ∃ n, root.lookup? (String.ofList path) = .ok (some n)) :
    (∃ filled, fill root (pieces formula.toList) = .ok filled) ∨
      (∃ path, Mentions formula path ∧ LeadsTooDeep root path) ∧
        outcome root formula = .error .tooDeep := by
  cases hfill : fill root (pieces formula.toList) with
  | ok filled => exact .inl ⟨filled, rfl⟩
  | error fault =>
    obtain ⟨before, piece, after, hpieces, hbefore, hpiece⟩ :=
      exists_of_mapM_error (mapM_fill_eq_error hfill)
    cases piece with
    | char c => cases hpiece
    | reference path =>
      have hmem : .reference path ∈ pieces formula.toList :=
        hpieces ▸ List.mem_append_right _ List.mem_cons_self
      have hmentions := mentions_of_mem_pieces hmem
      obtain ⟨n, hlookup⟩ := h path hmentions
      cases hn : n.isRenderable with
      | true =>
        rw [fill_of_isRenderable hlookup hn] at hpiece
        cases hpiece
      | false =>
        exact .inr ⟨⟨path, hmentions, n, hlookup, hn⟩,
          outcome_of_tooDeep hpieces hbefore (fill_of_not_isRenderable hlookup hn)⟩

/--
A text of plain digits, points and blanks, and not of blanks alone, looks like a number if and only if
it is an expression and has no information separator, and the expression is then the number alone.
So a formula whose references lead to nodes, and which has no operators and no parentheses when it is
filled in, comes to a failure if and only if it has a reference and is filled in with blanks alone, and
some. A formula that refers to a container which nests too deeply to become a text comes to no failure
and to no other result.
-/
theorem looksNumeric_iff_parse :
    (∀ room s, Numeral.IsNumeralText s → s.all Text.isBlank = false →
      (looksNumeric s = true ↔
        (∃ p, parse room (String.ofList s) = .ok p) ∧ ∀ c ∈ s, Text.isSeparator c = false) ∧
      (looksNumeric s = true → ∃ x, Number.read? (String.ofList s) = some x ∧
        parse room (String.ofList s) = .ok (.literal x))) ∧
    ∀ (cache : Cache) (root : Forest) (formula : String), cache.IsReady →
      (∀ path, Mentions formula path → ∃ n, root.lookup? (String.ofList path) = .ok (some n)) →
      (∃ filled, fill root (pieces formula.toList) = .ok filled ∧
        (filled.any isMark = false →
          ∃ result, (evaluate cache root formula).1 = .ok result ∧
            ((∃ message, result = .failure message) ↔
              (∃ path, Mentions formula path) ∧ filled ≠ [] ∧
                filled.all Text.isBlank = true))) ∨
      (∃ path, Mentions formula path ∧ LeadsTooDeep root path) ∧
        (evaluate cache root formula).1 = .error .tooDeep := by
  constructor
  · intro room s hs hsome
    refine ⟨?_, fun hnumeric ↦ exists_literal_of_looksNumeric hs hsome hnumeric room⟩
    rw [looksNumeric_iff_surrounded hs hsome, exists_parse_iff_surrounded hs, ← exists_and_right]
    exact exists_congr fun n ↦ Numeral.surrounded_isMargin_iff
  · intro cache root formula hcache hresolved
    rw [(evaluate_spec hcache root formula).1]
    refine (exists_fill hresolved).imp_left fun ⟨filled, hfill⟩ ↦ ⟨filled, hfill, fun hmark ↦ ?_⟩
    rw [outcome]
    split
    case isTrue hreference =>
      obtain ⟨piece, hpiece, hkind⟩ := List.any_eq_true.mp hreference
      have hmentions : ∃ path, Mentions formula path := by
        cases piece with
        | char c => cases hkind
        | reference path => exact ⟨path, mentions_of_mem_pieces hpiece⟩
      rw [hfill]
      refine ⟨settled filled, rfl, ?_⟩
      rw [settled_of_not_isMark hmark, and_iff_right hmentions]
    case isFalse hreference =>
      refine ⟨.text formula, rfl, iff_of_false (fun ⟨_, h⟩ ↦ by cases h) ?_⟩
      rintro ⟨⟨path, hmentions⟩, -⟩
      exact hreference (List.any_eq_true.mpr ⟨_, mentions_iff.mp hmentions, rfl⟩)

/-- A tree of one text. -/
def oneText (text : String) : Forest := [⟨"", "a", .leaf (.text text)⟩]

theorem pieces_one : pieces "\x7b\x7ba\x7d\x7d".toList = [.reference ['a']] :=
  pieces_reference (List.cons_ne_nil _ _) (List.forall_mem_singleton.mpr rfl)

theorem looksNumeric_iff_parse_point :
    (Numeral.IsNumeralText [' ', '5', '.'] ∧ [' ', '5', '.'].all Text.isBlank = false ∧
      looksNumeric [' ', '5', '.'] = true ∧
      ∃ x, Number.read? " 5." = some x ∧ parse 10 " 5." = .ok (.literal x)) ∧
    ∃ message, (evaluate (.ofCapacity defaultCapacity) (oneText " ") "\x7b\x7ba\x7d\x7d").1 =
      .ok (.failure message) := by
  have hready : (Arithmetic.Cache.ofCapacity defaultCapacity).IsReady :=
    Cache.isReady_ofCapacity (by decide)
  have htext : Numeral.IsNumeralText [' ', '5', '.'] := Numeral.isNumeralText_of_all (by decide)
  have hnumeric : looksNumeric [' ', '5', '.'] = true := by decide +kernel
  have hmentions (path : List Char) : Mentions "\x7b\x7ba\x7d\x7d" path ↔ path = ['a'] := by
    rw [mentions_iff, pieces_one, List.mem_singleton, Piece.reference.injEq]
  obtain ⟨hnumbers, hformulas⟩ := looksNumeric_iff_parse
  constructor
  · exact ⟨htext, by decide, hnumeric, (hnumbers 10 _ htext (by decide)).2 hnumeric⟩
  · have hleads (path : List Char) (hpath : Mentions "\x7b\x7ba\x7d\x7d" path) :
        (oneText " ").lookup? (String.ofList path) = .ok (some ⟨"", "a", .leaf (.text " ")⟩) := by
      rw [(hmentions path).mp hpath]
      rfl
    obtain ⟨filled, hfill, hresult⟩ | ⟨⟨path, hpath, n, hlookup, hn⟩, -⟩ :=
      hformulas _ (oneText " ") "\x7b\x7ba\x7d\x7d" hready fun path hpath ↦ ⟨_, hleads path hpath⟩
    case inr =>
      rw [hleads path hpath] at hlookup
      obtain rfl := Option.some.inj (Except.ok.inj hlookup)
      cases hn
    obtain rfl : [' '] = filled := by
      rw [pieces_one] at hfill
      exact Except.ok.inj hfill
    obtain ⟨result, hevaluate, hfailure⟩ := hresult rfl
    obtain ⟨message, rfl⟩ := hfailure.mpr
      ⟨⟨_, (hmentions _).mpr rfl⟩, List.cons_ne_nil _ _, rfl⟩
    exact ⟨message, hevaluate⟩

/-- With an information separator in front of it, a digit is an expression and stays a text. -/
theorem separator_digit :
    Numeral.IsNumeralText ['\x1c', '5'] ∧ ['\x1c', '5'].all Text.isBlank = false ∧
      parse 10 "\x1c5" = .ok (.literal 5) ∧ looksNumeric ['\x1c', '5'] = false ∧
      (evaluate (.ofCapacity defaultCapacity) (oneText "\x1c5") "\x7b\x7ba\x7d\x7d").1 =
        .ok (.text "\x1c5") := by
  have hready : (Arithmetic.Cache.ofCapacity defaultCapacity).IsReady :=
    Cache.isReady_ofCapacity (by decide)
  have hplain : (⟨['5'], none⟩ : Numeral).IsPlain :=
    ⟨List.forall_mem_singleton.mpr rfl, List.cons_ne_nil _ _⟩
  have hsurrounded : (⟨['5'], none⟩ : Numeral).Surrounded Text.isBlank ['\x1c', '5'] :=
    ⟨hplain, ['\x1c'], [], List.forall_mem_singleton.mpr rfl, List.forall_mem_nil _, rfl⟩
  have hparse := parse_of_surrounded hsurrounded 10
  have hvalue : (⟨['5'], none⟩ : Numeral).toFloat = 5 := by decide +kernel
  have hfill : fill (oneText "\x1c5") [.reference ['a']] = .ok "\x1c5".toList := rfl
  have harithmetic : isArithmetic "\x1c5".toList = false := by decide +kernel
  rw [hvalue] at hparse
  refine ⟨Numeral.isNumeralText_of_all (by decide), by decide, hparse, by decide +kernel, ?_⟩
  rw [(evaluate_spec hready _ _).1, outcome, pieces_one, hfill]
  change Except.ok (settled "\x1c5".toList) = _
  rw [settled, harithmetic, if_neg Bool.false_ne_true, String.ofList_toList]

end KeyTree.Formula
