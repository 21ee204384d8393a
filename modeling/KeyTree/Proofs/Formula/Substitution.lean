import KeyTree.Proofs.Arithmetic.Lexing
import KeyTree.Proofs.Arithmetic.Substitution
import KeyTree.Proofs.Formula.Evaluation

/-!
# Numbers substituted as text

A formula that is an expression of numerals and references is evaluated by putting the text of each
number in the place of its reference and reading the whole text anew. The text of a number is a
numeral with or without a minus, so what is read is the expression with signed numerals in the place
of its references, and its value is that of the expression.
-/

namespace KeyTree.Formula

open Arithmetic

/-- What a primary of a formula is, other than an expression in parentheses. -/
inductive Atom where
  | numeral (n : Numeral) (plain : n.IsPlain)
  | reference (path : List Char) (nonempty : path ≠ [])
    (chars : ∀ c ∈ path, isReferenceChar c = true)

namespace Atom

def text : Atom → List Char
  | numeral n _ => n.text
  | reference path _ _ => '{' :: '{' :: path ++ ['}', '}']

/-- The number of an atom, where each path stands for a number. -/
def value (value : List Char → Float) : Atom → Float
  | numeral n _ => n.toFloat
  | reference path _ _ => value path

/-- The sign and the numeral of an atom, where each path stands for such a text. -/
def written (written : List Char → Bool × Numeral) : Atom → Bool × Numeral
  | numeral n _ => (false, n)
  | reference path _ _ => written path

end Atom

variable {root : Forest} {symbols : List (Symbol Atom)} {formula : List Char}
  {written : List Char → Bool × Numeral}

/-- The paths of the references among symbols. -/
def References (symbols : List (Symbol Atom)) (path : List Char) : Prop :=
  ∃ nonempty chars, Symbol.atom (.reference path nonempty chars) ∈ symbols

/-! ## Filling in -/

theorem fill_cons {piece : Piece} {parts : List Piece} {text filled : List Char}
    (hpiece : piece.fill root = .ok text) (hparts : fill root parts = .ok filled) :
    fill root (piece :: parts) = .ok (text ++ filled) := by
  obtain ⟨texts, htexts, rfl⟩ := exists_of_map_eq_ok hparts
  unfold fill
  rw [List.mapM_cons, hpiece, htexts]
  rfl

theorem fill_chars_append (chars : List Char) {parts : List Piece} {filled : List Char}
    (hparts : fill root parts = .ok filled) :
    fill root (chars.map .char ++ parts) = .ok (chars ++ filled) := by
  induction chars with
  | nil => exact hparts
  | cons c chars ih =>
    have hpiece : (Piece.char c).fill root = .ok [c] := rfl
    have hfill := fill_cons hpiece ih
    exact hfill

theorem pieces_char {c : Char} (hc : c ≠ '{') (rest : List Char) :
    pieces (c :: rest) = .char c :: pieces rest := by
  have hscan : scanReference? (c :: rest) = none := by
    unfold scanReference?
    split
    case h_1 heq => exact absurd (List.cons.inj heq).1 hc
    case h_2 => rfl
  exact pieces_of_scanReference?_none hscan

/-- A text without opening braces stands for itself. -/
theorem pieces_append {chars : List Char} (hchars : '{' ∉ chars) (rest : List Char) :
    pieces (chars ++ rest) = chars.map .char ++ pieces rest := by
  induction chars with
  | nil => rfl
  | cons c chars ih =>
    rw [List.mem_cons, not_or] at hchars
    rw [List.cons_append, pieces_char fun h ↦ hchars.1 h.symm, ih hchars.2]
    rfl

theorem fill_pieces_append {chars rest filled : List Char} (hchars : '{' ∉ chars)
    (hrest : fill root (pieces rest) = .ok filled) :
    fill root (pieces (chars ++ rest)) = .ok (chars ++ filled) := by
  rw [pieces_append hchars]
  exact fill_chars_append chars hrest

theorem any_map_char (chars : List Char) :
    (chars.map Piece.char).any Piece.isReference = false := by
  rw [List.any_map, List.any_eq_false]
  exact fun c _ ↦ Bool.false_ne_true

theorem any_pieces_append {chars : List Char} (hchars : '{' ∉ chars) (rest : List Char) :
    (pieces (chars ++ rest)).any Piece.isReference = (pieces rest).any Piece.isReference := by
  rw [pieces_append hchars, List.any_append, any_map_char, Bool.false_or]

theorem brace_not_mem_of_isBlank {blanks : List Char}
    (h : ∀ c ∈ blanks, Text.isBlank c = true) : '{' ∉ blanks :=
  fun hmem ↦ absurd (h _ hmem) (by decide)

theorem brace_not_mem_of_isPlain {n : Numeral} (h : n.IsPlain) : '{' ∉ n.text :=
  fun hmem ↦ absurd (h.isNumeralChar_of_mem hmem) (by decide)

/-- Only references have braces. -/
theorem brace_not_mem_or_reference (s : Symbol Atom) :
    '{' ∉ s.text Atom.text ∨ ∃ path nonempty chars, s = .atom (.reference path nonempty chars) := by
  cases s with
  | opening => exact .inl (by decide)
  | closing => exact .inl (by decide)
  | operator op => cases op <;> exact .inl (by decide)
  | atom a =>
    cases a with
    | numeral n plain => exact .inl (brace_not_mem_of_isPlain plain)
    | reference path nonempty chars => exact .inr ⟨path, nonempty, chars, rfl⟩

/-- Every reference gives way to a plain numeral with or without a minus. -/
def IsWritten (root : Forest) (written : List Char → Bool × Numeral)
    (symbols : List (Symbol Atom)) : Prop :=
  ∀ path, References symbols path → (written path).2.IsPlain ∧
    (Piece.reference path).fill root =
      .ok (signText (written path).1 ++ (written path).2.text)

theorem IsWritten.mono {symbols' : List (Symbol Atom)} (h : IsWritten root written symbols)
    (hsub : symbols' ⊆ symbols) : IsWritten root written symbols' := by
  rintro path ⟨nonempty, chars, hmem⟩
  exact h path ⟨nonempty, chars, hsub hmem⟩

theorem text_fill_atom (f : Atom → Bool × Numeral) (a : Atom) :
    ((Symbol.atom a).fill f).flatMap (Symbol.text Numeral.text) =
      signText (f a).1 ++ (f a).2.text := by
  rw [Symbol.fill]
  match f a with
  | (true, n) =>
    rw [List.flatMap_cons, List.flatMap_singleton]
    rfl
  | (false, n) =>
    rw [List.flatMap_singleton]
    rfl

/-- The text of a symbol gives way to the texts of the symbols that the symbol gives way to. -/
theorem fill_pieces_symbol {s : Symbol Atom} {rest filled : List Char}
    (hs : IsWritten root written [s]) (hrest : fill root (pieces rest) = .ok filled) :
    fill root (pieces (s.text Atom.text ++ rest)) =
      .ok ((s.fill (Atom.written written)).flatMap (Symbol.text Numeral.text) ++ filled) := by
  cases s with
  | opening => exact fill_pieces_append (by decide) hrest
  | closing => exact fill_pieces_append (by decide) hrest
  | operator op => cases op <;> exact fill_pieces_append (by decide) hrest
  | atom a =>
    cases a with
    | numeral n plain =>
      rw [text_fill_atom]
      exact fill_pieces_append (brace_not_mem_of_isPlain plain) hrest
    | reference path nonempty chars =>
      obtain ⟨-, hpiece⟩ := hs path ⟨nonempty, chars, List.mem_singleton_self _⟩
      have hfill := fill_cons hpiece hrest
      rw [← pieces_reference_append nonempty chars] at hfill
      rw [text_fill_atom, Symbol.text, Atom.text, List.append_assoc]
      exact hfill

/-- The numerals of a filled expression are plain. -/
theorem IsWritten.isPlain (h : IsWritten root written symbols) {n : Numeral}
    (hn : .atom n ∈ symbols.flatMap (Symbol.fill (Atom.written written))) : n.IsPlain := by
  obtain ⟨s, hs, hmem⟩ := List.mem_flatMap.mp hn
  obtain ⟨a, rfl, rfl⟩ := Symbol.atom_mem_fill hmem
  cases a with
  | numeral n plain => exact plain
  | reference path nonempty chars => exact (h path ⟨nonempty, chars, hs⟩).1

/-- Characters of plain numerals, operators and parentheses. -/
theorem isNumeralChar_or_isMark {s : Symbol Numeral} (h : ∀ n, s = .atom n → n.IsPlain) {c : Char}
    (hc : c ∈ s.text Numeral.text) : Numeral.isNumeralChar c = true ∨ isMark c = true := by
  cases s with
  | atom n => exact .inl ((h n rfl).isNumeralChar_of_mem hc)
  | opening =>
    rw [List.mem_singleton.mp hc]
    exact .inr rfl
  | closing =>
    rw [List.mem_singleton.mp hc]
    exact .inr rfl
  | operator op =>
    rw [List.mem_singleton.mp hc]
    cases op <;> exact .inr rfl

theorem exists_isMark_text {s : Symbol Numeral} (hs : s.isAtom = false) :
    ∃ c, s.text Numeral.text = [c] ∧ isMark c = true := by
  cases s with
  | atom n => cases hs
  | opening => exact ⟨'(', rfl, rfl⟩
  | closing => exact ⟨')', rfl, rfl⟩
  | operator op =>
    refine ⟨op.symbol, rfl, ?_⟩
    cases op <;> rfl

theorem text_ne_nil {s : Symbol Numeral} (h : ∀ n, s = .atom n → n.IsPlain) :
    s.text Numeral.text ≠ [] := by
  cases s with
  | atom n => exact (h n rfl).text_ne_nil
  | _ => exact List.cons_ne_nil _ _

theorem isArithmeticChar_of_mem {s : Symbol Numeral} (h : ∀ n, s = .atom n → n.IsPlain)
    (hremainder : s ≠ .operator .remainder) {c : Char} (hc : c ∈ s.text Numeral.text) :
    isArithmeticChar c = true := by
  cases s with
  | atom n =>
    have hnumeral := (h n rfl).isNumeralChar_of_mem hc
    rw [Numeral.isNumeralChar] at hnumeral
    rw [isArithmeticChar, hnumeral]
    rfl
  | opening =>
    rw [List.mem_singleton.mp hc]
    rfl
  | closing =>
    rw [List.mem_singleton.mp hc]
    rfl
  | operator op =>
    rw [List.mem_singleton.mp hc]
    cases op with
    | remainder => exact absurd rfl hremainder
    | _ => rfl

theorem isSeparator_eq_false {c : Char}
    (h : Numeral.isNumeralChar c = true ∨ isMark c = true) : Text.isSeparator c = false := by
  rcases h with hnumeral | hmark
  · have hall := Numeral.all_of_isNumeralChar (p := fun c ↦ !Text.isSeparator c) (by decide)
      hnumeral
    exact (Bool.not_eq_true' _).mp hall
  · simp only [isMark, Bool.or_eq_true, beq_iff_eq, or_assoc] at hmark
    rcases hmark with rfl | rfl | rfl | rfl | rfl | rfl | rfl <;> rfl

/-- What an expression is set out as is filled in, as the filled expression is set out. -/
theorem exists_filled (hlaid : Laid (Symbol.text Atom.text) symbols formula)
    (hwritten : IsWritten root written symbols) :
    ∃ filled, fill root (pieces formula) = .ok filled ∧
      Laid (Symbol.text Numeral.text) (symbols.flatMap (Symbol.fill (Atom.written written)))
        filled ∧
      ∀ c ∈ filled, Text.isSeparator c = true → c ∈ formula := by
  induction hlaid with
  | @nil blanks hblanks =>
    have hbrace := brace_not_mem_of_isBlank hblanks
    have hnil : fill root (pieces []) = .ok [] := by
      rw [pieces]
      rfl
    refine ⟨blanks, ?_, .nil hblanks, fun c hc _ ↦ hc⟩
    have hfill := fill_pieces_append hbrace hnil
    rwa [List.append_nil] at hfill
  | @cons s ss blanks text hblanks hlaid ih =>
    have hbrace := brace_not_mem_of_isBlank hblanks
    obtain ⟨filled, hfill, hfilled, hseparator⟩ :=
      ih (hwritten.mono (List.subset_cons_self s ss))
    have hs : IsWritten root written [s] :=
      hwritten.mono (List.cons_subset_cons s (List.nil_subset ss))
    refine ⟨_, fill_pieces_append hbrace (fill_pieces_symbol hs hfill),
      hfilled.append (s.fill_ne_nil _) hblanks, ?_⟩
    -- Numerals and marks have no separators, so those that are left stand in the formula.
    intro c hc hsep
    rcases List.mem_append.mp hc with hc | hc
    · exact List.mem_append_left _ hc
    · rcases List.mem_append.mp hc with hc | hc
      · obtain ⟨s', hs', hc⟩ := List.mem_flatMap.mp hc
        have hplain : ∀ n, s' = .atom n → n.IsPlain := by
          rintro n rfl
          exact hs.isPlain (List.mem_flatMap.mpr ⟨s, List.mem_singleton_self s, hs'⟩)
        rw [isSeparator_eq_false (isNumeralChar_or_isMark hplain hc)] at hsep
        cases hsep
      · exact List.mem_append_right _ (List.mem_append_right _ (hseparator c hc hsep))

/-! ## The filled text is computed -/

/-- What comes of reading an expression and evaluating its program. -/
def computed (e : Expression Numeral) : Except Fault Float :=
  if e.nesting < callLimit then (e.program Numeral.toFloat).evaluate callLimit
  else .error .tooDeep

/-- The result that a value or a fault of arithmetic makes. -/
def result : Except Fault Float → Evaluation
  | .ok x => .number x
  | .error fault => .failure fault.message

section

variable {e : Expression Numeral} {filled : List Char}
  (hlaid : Laid (Symbol.text Numeral.text) e.symbols filled)
  (hplain : ∀ n, .atom n ∈ e.symbols → n.IsPlain)

include hlaid hplain

theorem value_of_laid : Arithmetic.value callLimit (String.ofList filled) = computed e := by
  have hlimit : e.nesting ≤ callLimit - 1 ↔ e.nesting < callLimit := Nat.le_sub_one_iff_lt (by decide)
  rw [Arithmetic.value, hlaid.parse_eq_ite hplain, computed, if_congr hlimit rfl rfl]
  split
  · rfl
  · rfl

/-- A text of symbols is marked as arithmetic, or it is a number alone. -/
theorem any_isMark_or_looksNumeric
    (hmargin : e.symbols.length = 1 → ∀ c ∈ filled, Text.isSeparator c = false) :
    filled.any isMark = true ∨ looksNumeric filled = true := by
  by_cases hmark : ∃ s ∈ e.symbols, s.isAtom = false
  · obtain ⟨s, hs, hatom⟩ := hmark
    obtain ⟨c, htext, hc⟩ := exists_isMark_text hatom
    have hmem : c ∈ s.text Numeral.text := htext ▸ List.mem_singleton_self c
    exact .inl (List.any_eq_true.mpr ⟨c, hlaid.mem_of_mem hs hmem, hc⟩)
  · -- Without operators and parentheses there is one numeral, and what surrounds it is trimmed.
    have hatoms : ∀ s ∈ e.symbols, s.isAtom = true := by
      intro s hs
      by_contra hatom
      exact hmark ⟨s, hs, (Bool.not_eq_true _).mp hatom⟩
    obtain ⟨n, hsymbols⟩ := e.separated.exists_atom e.symbols_ne_nil hatoms
    have hlength : e.symbols.length = 1 := by
      rw [hsymbols]
      rfl
    have hn : n.IsPlain := hplain n (hsymbols ▸ List.mem_singleton_self _)
    obtain ⟨before, after, hbefore, hafter, rfl⟩ := (hsymbols ▸ hlaid).exists_blanks
    have hblank {blanks : List Char} (hblanks : ∀ c ∈ blanks, Text.isBlank c = true)
        (hsub : blanks ⊆ before ++ (n.text ++ after)) :
        ∀ c ∈ blanks, Number.isMargin c = true := by
      intro c hc
      rw [Number.isMargin, hblanks c hc, hmargin hlength c (hsub hc)]
      rfl
    have hread := Number.read?_of_isPlain hn false
      (hblank hbefore (List.subset_append_left _ _))
      (hblank hafter (List.subset_append_of_subset_right _ (List.subset_append_right _ _)))
    right
    rw [looksNumeric, Bool.or_eq_true]
    right
    exact Option.isSome_iff_exists.mpr ⟨_, hread⟩

/-- The text of an expression without remainders is arithmetic. -/
theorem isArithmetic_of_laid (hremainder : .operator .remainder ∉ e.symbols)
    (hmargin : e.symbols.length = 1 → ∀ c ∈ filled, Text.isSeparator c = false) :
    isArithmetic filled = true := by
  have hchars : ∀ c ∈ filled, isArithmeticChar c = true := by
    refine hlaid.forall_mem (P := fun c ↦ isArithmeticChar c = true) ?_ ?_
    · intro c hc
      rw [isArithmeticChar, hc, Bool.or_true]
    · intro s hs c hc
      have hne : s ≠ .operator .remainder := fun heq ↦ hremainder (heq ▸ hs)
      exact isArithmeticChar_of_mem (fun n hn ↦ hplain n (hn ▸ hs)) hne hc
  have hsome : filled.isEmpty = false := by
    rw [List.isEmpty_eq_false_iff]
    rintro rfl
    obtain ⟨s, ss, hsymbols⟩ := List.exists_cons_of_ne_nil e.symbols_ne_nil
    have hs : s ∈ e.symbols := hsymbols ▸ List.mem_cons_self
    obtain ⟨c, hc⟩ := List.exists_mem_of_ne_nil _ (text_ne_nil fun n hn ↦ hplain n (hn ▸ hs))
    cases hlaid.mem_of_mem hs hc
  have hshape : (filled.any isMark || looksNumeric filled) = true := by
    rw [Bool.or_eq_true]
    exact any_isMark_or_looksNumeric hlaid hplain hmargin
  rw [isArithmetic, hshape, hsome, List.all_eq_true.mpr hchars]
  rfl

/-- What a text that is filled in with an expression comes to. -/
theorem settled_of_laid (hremainder : .operator .remainder ∉ e.symbols)
    (hmargin : e.symbols.length = 1 → ∀ c ∈ filled, Text.isSeparator c = false) :
    settled filled = result (computed e) := by
  have hsettled : settled filled = result (Arithmetic.value callLimit (String.ofList filled)) :=
    if_pos (isArithmetic_of_laid hlaid hplain hremainder hmargin)
  rw [hsettled, value_of_laid hlaid hplain]

end

/-! ## Formulas with references to numbers -/

theorem any_pieces_symbol {s : Symbol Atom} {rest : List Char}
    (h : (∃ path, References [s] path) ∨ (pieces rest).any Piece.isReference = true) :
    (pieces (s.text Atom.text ++ rest)).any Piece.isReference = true := by
  rcases brace_not_mem_or_reference s with hbrace | ⟨path, nonempty, chars, rfl⟩
  · rw [any_pieces_append hbrace]
    rcases h with ⟨path, nonempty, chars, hmem⟩ | hrest
    · rw [← List.mem_singleton.mp hmem] at hbrace
      exact absurd List.mem_cons_self hbrace
    · exact hrest
  · rw [Symbol.text, Atom.text, List.append_assoc]
    change (pieces ('{' :: '{' :: path ++ '}' :: '}' :: rest)).any Piece.isReference = true
    rw [pieces_reference_append nonempty chars]
    rfl

theorem any_isReference (hlaid : Laid (Symbol.text Atom.text) symbols formula)
    (hsome : ∃ path, References symbols path) :
    (pieces formula).any Piece.isReference = true := by
  obtain ⟨path, nonempty, chars, hmem⟩ := hsome
  induction hlaid with
  | nil => cases hmem
  | @cons s ss blanks text hblanks hlaid ih =>
    have hbrace := brace_not_mem_of_isBlank hblanks
    rw [any_pieces_append hbrace]
    apply any_pieces_symbol
    rcases List.mem_cons.mp hmem with hs | hmem
    · exact .inl ⟨path, nonempty, chars, List.mem_singleton.mpr hs⟩
    · exact .inr (ih hmem)

/-- A formula with references to texts of numerals is computed from the numerals. -/
theorem outcome_of_laid {e : Expression Atom} {formula : String}
    (hlaid : Laid (Symbol.text Atom.text) e.symbols formula.toList)
    (hremainder : .operator .remainder ∉ e.symbols)
    (hsome : ∃ path, References e.symbols path) (hwritten : IsWritten root written e.symbols)
    (hmargin : e.symbols.length = 1 → ∀ c ∈ formula.toList, Text.isSeparator c = false) :
    outcome root formula = .ok (result (computed (e.fill (Atom.written written)))) := by
  obtain ⟨filled, hfill, hfilled, hseparator⟩ := exists_filled hlaid hwritten
  rw [← e.symbols_fill] at hfilled
  have hplain : ∀ n, .atom n ∈ (e.fill (Atom.written written)).symbols → n.IsPlain := by
    intro n hn
    rw [e.symbols_fill] at hn
    exact hwritten.isPlain hn
  have hnone : .operator .remainder ∉ (e.fill (Atom.written written)).symbols := by
    rw [e.symbols_fill]
    intro hmem
    obtain ⟨s, hs, hop⟩ := List.mem_flatMap.mp hmem
    rw [Symbol.operator_mem_fill (by decide) hop] at hs
    exact hremainder hs
  have hends : (e.fill (Atom.written written)).symbols.length = 1 →
      ∀ c ∈ filled, Text.isSeparator c = false := by
    intro hlength c hc
    have hone : e.symbols.length = 1 := by
      have hle := Symbol.length_le_length_fill (Atom.written written) e.symbols
      have hpos := List.length_pos_iff.mpr e.symbols_ne_nil
      rw [← e.symbols_fill, hlength] at hle
      omega
    by_contra hsep
    have hsep : Text.isSeparator c = true := (Bool.not_eq_false _).mp hsep
    rw [hmargin hone c (hseparator c hc hsep)] at hsep
    cases hsep
  unfold outcome
  dsimp only
  rw [if_pos (any_isReference hlaid hsome), hfill]
  exact congrArg Except.ok (settled_of_laid hfilled hplain hnone hends)

/-- The number of a numeral with or without a minus. -/
def signedValue (written : Bool × Numeral) : Float :=
  if written.1 then -written.2.toFloat else written.2.toFloat

/-- A path leads to a number that is shown without letters. -/
def LeadsToNumber (root : Forest) (path : List Char) (x : Float) : Prop :=
  (∃ n, root.lookup? (String.ofList path) = .ok (some n) ∧ n.payload = .leaf (.number x)) ∧
    Number.IsShownPlain x

theorem LeadsToNumber.exists_written {path : List Char} {x : Float}
    (h : LeadsToNumber root path x) :
    ∃ written : Bool × Numeral, written.2.IsPlain ∧
      (Piece.reference path).fill root = .ok (signText written.1 ++ written.2.text) ∧
      Number.read? (Number.shown x) = some (signedValue written) := by
  obtain ⟨⟨n, hlookup, hpayload⟩, hshown⟩ := h
  obtain ⟨minus, numeral, hplain, htext⟩ := hshown.exists_numeral
  refine ⟨(minus, numeral), hplain, ?_, Number.read?_of_toList hplain htext⟩
  have hrendered : n.rendered = Number.shown x := by
    rw [Node.rendered, hpayload]
    rfl
  have hrenderable := isRenderable_of_leaf hpayload
  rw [fill_of_isRenderable hlookup hrenderable, hrendered, htext]

/-- References to numbers give way to numerals, and the numerals are what the numbers read as. -/
theorem exists_isWritten {number : List Char → Float}
    (hnumbers : ∀ path, References symbols path → LeadsToNumber root path (number path)) :
    ∃ written, IsWritten root written symbols ∧ ∀ path, References symbols path →
      Number.read? (Number.shown (number path)) = some (signedValue (written path)) := by
  have hchoice (path : List Char) : ∃ written : Bool × Numeral, References symbols path →
      written.2.IsPlain ∧
      (Piece.reference path).fill root = .ok (signText written.1 ++ written.2.text) ∧
      Number.read? (Number.shown (number path)) = some (signedValue written) := by
    by_cases hpath : References symbols path
    · obtain ⟨written, hwritten⟩ := (hnumbers path hpath).exists_written
      exact ⟨written, fun _ ↦ hwritten⟩
    · exact ⟨(false, ⟨[], none⟩), fun h ↦ absurd h hpath⟩
  choose written hwritten using hchoice
  exact ⟨written, fun path hpath ↦ ⟨(hwritten path hpath).1, (hwritten path hpath).2.1⟩,
    fun path hpath ↦ (hwritten path hpath).2.2⟩

/-- Filling in an expression keeps its value, where each reference stands for its numeral. -/
theorem keepsValues_written (written : List Char → Bool × Numeral) :
    KeepsValues (Atom.written written) (Atom.value fun path ↦ signedValue (written path))
      Numeral.toFloat := by
  intro a
  cases a with
  | numeral n plain => rfl
  | reference path nonempty chars => rfl

section

variable {cache : Arithmetic.Cache} {e : Expression Atom} {formula : String}
  {number : List Char → Float}

/-- A formula with references to numbers that nests too deeply is a failure. -/
theorem evaluate_eq_failure (hcache : cache.IsReady)
    (hlaid : Laid (Symbol.text Atom.text) e.symbols formula.toList)
    (hremainder : .operator .remainder ∉ e.symbols)
    (hsome : ∃ path, References e.symbols path)
    (hnumbers : ∀ path, References e.symbols path → LeadsToNumber root path (number path))
    (hmargin : e.symbols.length = 1 → ∀ c ∈ formula.toList, Text.isSeparator c = false)
    (hnesting : callLimit < e.nesting) :
    (evaluate cache root formula).1 = .ok (.failure Fault.tooDeep.message) := by
  obtain ⟨written, hwritten, -⟩ := exists_isWritten hnumbers
  have hcomputed : computed (e.fill (Atom.written written)) = .error .tooDeep := by
    have hnest := e.nesting_fill (Atom.written written)
    rw [computed, if_neg (by omega)]
  rw [(evaluate_spec hcache root formula).1,
    outcome_of_laid hlaid hremainder hsome hwritten hmargin, hcomputed]
  rfl

/--
Let a formula be set out from an expression without remainders, with any blanks, and let its
references lead to numbers that are shown without an exponent and are not infinite. If the expression
nests within the limits, the formula comes to its value, where each reference stands for the number
that its text is read as. A reference alone must have no information separators around it.
-/
theorem evaluate_eq_value (hcache : cache.IsReady)
    (hlaid : Laid (Symbol.text Atom.text) e.symbols formula.toList)
    (hremainder : .operator .remainder ∉ e.symbols)
    (hsome : ∃ path, References e.symbols path)
    (hnumbers : ∀ path, References e.symbols path → LeadsToNumber root path (number path))
    (hmargin : e.symbols.length = 1 → ∀ c ∈ formula.toList, Text.isSeparator c = false)
    (hnesting : e.nesting < callLimit - 1)
    (hdepth : (e.program (Atom.value number)).depth < callLimit) :
    ∃ value : List Char → Float,
      (∀ path, References e.symbols path →
        Number.read? (Number.shown (number path)) = some (value path)) ∧
      (evaluate cache root formula).1 =
        .ok (.number (e.program (Atom.value value)).value) := by
  obtain ⟨written, hwritten, hread⟩ := exists_isWritten hnumbers
  refine ⟨fun path ↦ signedValue (written path), hread, ?_⟩
  have hvalue := (e.replaces_fill _ _ _).value (keepsValues_written written)
  have hcomputed : computed (e.fill (Atom.written written)) =
      .ok (e.program (Atom.value fun path ↦ signedValue (written path))).value := by
    have hnest := e.nesting_fill (Atom.written written)
    have hdeep := (e.replaces_fill (Atom.written written) (Atom.value number)
      Numeral.toFloat).depth
    rw [computed, if_pos (by omega), Program.evaluate, if_pos (by omega), hvalue]
  rw [(evaluate_spec hcache root formula).1,
    outcome_of_laid hlaid hremainder hsome hwritten hmargin, hcomputed]
  rfl

end

/-- A reference with a path of one character. -/
def letter (c : Char) (h : isReferenceChar c = true) : Atom :=
  .reference [c] (List.cons_ne_nil c []) (List.forall_mem_singleton.mpr h)

/-- Two less a product of references, the second of which has a minus. -/
def difference : Expression Atom :=
  .sum (.product (.primary (.atom (.numeral ⟨['2'], none⟩
      ⟨List.forall_mem_singleton.mpr rfl, List.cons_ne_nil _ _⟩))) [])
    [(⟨.subtract, rfl⟩, .product (.primary (.atom (letter 'a' rfl)))
      [(⟨.multiply, rfl⟩, .sign true (.primary (.atom (letter 'b' rfl))))])]

theorem references_difference {path : List Char} (h : References difference.symbols path) :
    path = ['a'] ∨ path = ['b'] := by
  obtain ⟨nonempty, chars, hmem⟩ := h
  simpa [difference, Expression.symbols, Expression.restSymbols, Term.symbols, Term.restSymbols,
    Unary.symbols, Primary.symbols, letter] using hmem

theorem laid_difference : Laid (Symbol.text Atom.text) difference.symbols
    "2 - \x7b\x7ba\x7d\x7d * -\x7b\x7bb\x7d\x7d".toList := by
  have hnone : ∀ c ∈ ([] : List Char), Text.isBlank c = true := List.forall_mem_nil _
  have hspace : ∀ c ∈ [' '], Text.isBlank c = true := List.forall_mem_singleton.mpr rfl
  have hlaid : Laid (Symbol.text Atom.text) difference.symbols _ :=
    .cons hnone (.cons hspace (.cons hspace (.cons hspace (.cons hspace (.cons hnone
      (.nil hnone))))))
  exact hlaid

/-- A tree of two numbers. -/
def pair : Forest := [⟨"", "a", .leaf (.number (-3))⟩, ⟨"", "b", .leaf (.number 0.5)⟩]

theorem leadsToNumber_pair {path : List Char} (h : path = ['a'] ∨ path = ['b']) :
    LeadsToNumber pair path (if path = ['a'] then -3 else 0.5) := by
  have hshown {x : Float} (hchars : (Number.shown x).toList.all
      (fun c ↦ Numeral.isNumeralChar c || c == '-') = true) : Number.IsShownPlain x := by
    intro c hc
    have hchar := List.all_eq_true.mp hchars c hc
    rwa [Bool.or_eq_true, beq_iff_eq] at hchar
  rcases h with rfl | rfl
  · exact ⟨⟨_, rfl, rfl⟩, hshown (by decide +kernel)⟩
  · exact ⟨⟨_, rfl, rfl⟩, hshown (by decide +kernel)⟩

theorem evaluate_difference :
    (evaluate (.ofCapacity defaultCapacity) pair "2 - \x7b\x7ba\x7d\x7d * -\x7b\x7bb\x7d\x7d").1 =
      .ok (.number 0.5) := by
  have hready : (Arithmetic.Cache.ofCapacity defaultCapacity).IsReady :=
    Cache.isReady_ofCapacity (by decide)
  have ha : References difference.symbols ['a'] := ⟨_, _, .tail _ (.tail _ (.head _))⟩
  have hb : References difference.symbols ['b'] :=
    ⟨_, _, .tail _ (.tail _ (.tail _ (.tail _ (.tail _ (.head _)))))⟩
  have hremainder : .operator .remainder ∉ difference.symbols := by
    simp [difference, Expression.symbols, Expression.restSymbols, Term.symbols, Term.restSymbols,
      Unary.symbols, Primary.symbols, Operator.ofSign]
  have hmargin : difference.symbols.length ≠ 1 := by decide
  obtain ⟨value, hvalue, heq⟩ := evaluate_eq_value hready laid_difference hremainder ⟨_, ha⟩
    (fun path h ↦ leadsToNumber_pair (references_difference h)) (fun h ↦ absurd h hmargin)
    (by decide) (by decide)
  have hminus : Number.read? (Number.shown (-3)) = some (-3) := by decide +kernel
  have hhalf : Number.read? (Number.shown 0.5) = some 0.5 := by decide +kernel
  have hvaluea : value ['a'] = -3 := Option.some.inj ((hvalue _ ha).symm.trans hminus)
  have hvalueb : value ['b'] = 0.5 := Option.some.inj ((hvalue _ hb).symm.trans hhalf)
  have hprogram : (difference.program (Atom.value value)).value =
      (⟨['2'], none⟩ : Numeral).toFloat - value ['a'] * -value ['b'] := rfl
  have hcomputed : (⟨['2'], none⟩ : Numeral).toFloat - -3 * -0.5 = 0.5 := by decide +kernel
  rw [heq, hprogram, hvaluea, hvalueb, hcomputed]

/-- The reference to the second of two numbers, in parentheses. -/
def half (levels : Nat) : Expression Atom :=
  (Expression.sum (.product (.primary (.atom (letter 'b' rfl))) []) []).enclosed levels

theorem symbols_half (levels : Nat) :
    (half levels).symbols = List.replicate levels .opening ++
      (.atom (letter 'b' rfl) :: List.replicate levels .closing) :=
  Expression.symbols_enclosed _ levels

theorem operator_not_mem_half (op : Operator) (levels : Nat) :
    .operator op ∉ (half levels).symbols := by
  simp [symbols_half, List.mem_replicate]

theorem references_half {levels : Nat} {path : List Char} :
    References (half levels).symbols path ↔ path = ['b'] := by
  have hmem (nonempty chars) : Symbol.atom (.reference path nonempty chars) ∈
      (half levels).symbols ↔ path = ['b'] := by
    simp [symbols_half, letter, List.mem_replicate]
  constructor
  · rintro ⟨nonempty, chars, h⟩
    exact (hmem nonempty chars).mp h
  · rintro rfl
    exact ⟨_, List.forall_mem_singleton.mpr rfl, (hmem (List.cons_ne_nil _ _) _).mpr rfl⟩

/-- The text of the reference in its parentheses. -/
def halfText (levels : Nat) : List Char :=
  List.replicate levels '(' ++ ("\x7b\x7bb\x7d\x7d".toList ++ List.replicate levels ')')

theorem laid_half (levels : Nat) :
    Laid (Symbol.text Atom.text) (half levels).symbols (halfText levels) := by
  have hnil : Laid (Symbol.text Atom.text) [] [] := .nil (List.forall_mem_nil _)
  have htext : (half levels).symbols.flatMap (Symbol.text Atom.text) = halfText levels := by
    rw [symbols_half, List.flatMap_append, List.flatMap_cons, List.flatMap_replicate,
      List.flatMap_replicate, Symbol.text, Symbol.text, List.flatten_replicate_singleton,
      Symbol.text, List.flatten_replicate_singleton]
    rfl
  have hlaid := hnil.append (half levels).symbols_ne_nil (List.forall_mem_nil _)
  rwa [htext, List.append_nil, List.append_nil] at hlaid

/-- With an information separator in front of it, a number is not read. -/
theorem outcome_separator : outcome pair "\x1c\x7b\x7bb\x7d\x7d" = .ok (.text "\x1c0.5") := by
  have hpieces : pieces "\x1c\x7b\x7bb\x7d\x7d".toList = [.char '\x1c', .reference ['b']] := by
    have hchars : ∀ c ∈ ['b'], isReferenceChar c = true := List.forall_mem_singleton.mpr rfl
    have hreference := pieces_reference (List.cons_ne_nil _ _) hchars
    have hchar := pieces_char (c := '\x1c') (by decide) "\x7b\x7bb\x7d\x7d".toList
    exact hchar.trans (congrArg _ hreference)
  have hany : [Piece.char '\x1c', .reference ['b']].any Piece.isReference = true := rfl
  have hfill : fill pair [.char '\x1c', .reference ['b']] = .ok "\x1c0.5".toList := by
    decide +kernel
  have htext : isArithmetic "\x1c0.5".toList = false := by decide +kernel
  unfold outcome
  dsimp only
  rw [hpieces, if_pos hany, hfill]
  dsimp only
  rw [settled, htext, if_neg Bool.false_ne_true, String.ofList_toList]

/--
A reference to a number is not computed if it is too many parentheses deep. A reference alone with an
information separator in front of it stays a text.
-/
theorem evaluate_half :
    (evaluate (.ofCapacity defaultCapacity) pair (String.ofList (halfText 3000))).1 =
      .ok (.failure "Expression is nested too deeply") ∧
    (evaluate (.ofCapacity defaultCapacity) pair "\x1c\x7b\x7bb\x7d\x7d").1 =
      .ok (.text "\x1c0.5") := by
  have hready : (Arithmetic.Cache.ofCapacity defaultCapacity).IsReady :=
    Cache.isReady_ofCapacity (by decide)
  refine ⟨?_, (evaluate_spec hready _ _).1.trans outcome_separator⟩
  have hlaid : Laid (Symbol.text Atom.text) (half 3000).symbols
      (String.ofList (halfText 3000)).toList := by
    rw [String.toList_ofList]
    exact laid_half 3000
  have hmargin : (half 3000).symbols.length ≠ 1 := by
    rw [symbols_half, List.length_append, List.length_replicate]
    omega
  have hnesting : callLimit < (half 3000).nesting := by
    rw [half, Expression.nesting_enclosed]
    decide
  exact evaluate_eq_failure hready hlaid (operator_not_mem_half _ _)
    ⟨['b'], references_half.mpr rfl⟩
    (fun path h ↦ leadsToNumber_pair (.inr (references_half.mp h)))
    (fun h ↦ absurd h hmargin) hnesting

end KeyTree.Formula
