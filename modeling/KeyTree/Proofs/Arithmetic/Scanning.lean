import KeyTree.Proofs.Arithmetic.Literal

/-!
# What the scan of a source meets

A source is read from left to right. What stands next is a blank, a sign of an operator or of a
parenthesis, or a numeral, which goes on as far as it can. The tokens of a source are those of this
scan, each with the place that it was met at. A source has no tokens if the scan meets a character
with which none of these begins.
-/

namespace KeyTree

/-! ## Numerals that go on as far as they can -/

namespace Numeral

/-- Digits with at most one point before, between or behind them. -/
structure IsProper (n : Numeral) : Prop where
  digits : ∀ c ∈ n.whole ++ n.fraction.getD [], Text.isDigit c = true
  nonempty : n.whole ++ n.fraction.getD [] ≠ []

/-- No numeral at the start of this numeral and what follows it is longer. -/
def IsLongest (n : Numeral) (after : List Char) : Prop :=
  ∀ m : Numeral, m.IsProper → m.text <+: n.text ++ after → m.text.length ≤ n.text.length

variable {n m : Numeral} {s rest after : List Char}

theorem isProper_of_scan? (h : scan? s = some (n, rest)) : n.IsProper :=
  ⟨(digits_of_scan? h).1, (digits_of_scan? h).2⟩

theorem IsProper.isDigit_of_mem_whole (h : n.IsProper) {c : Char} (hc : c ∈ n.whole) :
    Text.isDigit c = true :=
  h.digits c (List.mem_append_left _ hc)

/-- Behind its first digits a numeral has a point or nothing. -/
theorem IsProper.takeWhile_text (h : n.IsProper) :
    n.text.takeWhile Text.isDigit = n.whole ∧
      n.text.dropWhile Text.isDigit =
        match n.fraction with
        | none => []
        | some digits => '.' :: digits := by
  apply Text.takeWhile_append_of_head fun c hc ↦ h.isDigit_of_mem_whole hc
  intro c hc
  cases hfraction : n.fraction with
  | none =>
    rw [hfraction] at hc
    cases hc
  | some digits =>
    rw [hfraction] at hc
    obtain rfl : '.' = c := Option.some.inj hc
    decide

theorem IsProper.eq_of_text (hm : m.IsProper) (hn : n.IsProper) (h : m.text = n.text) : m = n := by
  have hwhole : m.whole = n.whole := by
    rw [← hm.takeWhile_text.1, h, hn.takeWhile_text.1]
  have hbehind := hm.takeWhile_text.2.symm.trans ((congrArg _ h).trans hn.takeWhile_text.2)
  obtain ⟨whole, fraction⟩ := m
  obtain ⟨whole', fraction'⟩ := n
  obtain rfl : whole = whole' := hwhole
  cases fraction with
  | none =>
    cases fraction' with
    | none => rfl
    | some digits => cases hbehind
  | some digits =>
    cases fraction' with
    | none => cases hbehind
    | some digits' =>
      obtain rfl : digits = digits' := (List.cons.inj hbehind).2
      rfl

/-- A text that begins with a numeral is scanned at least that far. -/
theorem IsProper.exists_scan? (h : m.IsProper) (after : List Char) :
    ∃ n rest, scan? (m.text ++ after) = some (n, rest) ∧ m.text.length ≤ n.text.length := by
  obtain ⟨whole, fraction⟩ := m
  have hwhole : ∀ c ∈ whole, Text.isDigit c = true := fun c hc ↦ h.isDigit_of_mem_whole hc
  have hnonempty := h.nonempty
  cases fraction with
  | none =>
    -- Digits and a point may follow, which the numeral then goes on with.
    rw [Option.getD_none, List.append_nil] at hnonempty
    obtain ⟨c, digits, rfl⟩ := List.exists_cons_of_ne_nil hnonempty
    unfold scan?
    rw [text, List.append_nil, List.takeWhile_append_of_pos hwhole,
      List.dropWhile_append_of_pos hwhole]
    split
    all_goals
      refine ⟨_, _, if_neg Bool.false_ne_true, ?_⟩
      rw [text, List.append_assoc, List.length_append]
      exact Nat.le_add_right _ _
  | some behind =>
    have hbehind : ∀ c ∈ behind, Text.isDigit c = true :=
      fun c hc ↦ h.digits c (List.mem_append_right _ hc)
    have hpoint : ∀ c ∈ ('.' :: (behind ++ after)).head?, Text.isDigit c = false := by
      intro c hc
      obtain rfl : '.' = c := Option.some.inj hc
      decide
    obtain ⟨htake, hdrop⟩ := Text.takeWhile_append_of_head hwhole hpoint
    have hsome : (whole.isEmpty && (behind ++ after.takeWhile Text.isDigit).isEmpty) = false := by
      rw [Option.getD_some, ne_eq, List.append_eq_nil_iff, not_and_or] at hnonempty
      rw [Bool.and_eq_false_iff, List.isEmpty_eq_false_iff, List.isEmpty_eq_false_iff]
      exact hnonempty.imp_right (List.append_ne_nil_of_left_ne_nil · _)
    have hscan : scan? (whole ++ '.' :: (behind ++ after)) =
        some (⟨whole, some (behind ++ after.takeWhile Text.isDigit)⟩,
          (behind ++ after).dropWhile Text.isDigit) := by
      unfold scan?
      rw [htake, hdrop]
      simp only [List.takeWhile_append_of_pos hbehind, hsome, Bool.false_eq_true, if_false]
    rw [text, List.append_assoc, List.cons_append]
    refine ⟨_, _, hscan, List.IsPrefix.length_le ?_⟩
    apply (List.prefix_append_right_inj whole).mpr
    exact List.cons_prefix_cons.mpr ⟨rfl, List.prefix_append behind _⟩

theorem isLongest_of_scan? (h : scan? s = some (n, rest)) : n.IsLongest rest := by
  intro m hm hprefix
  obtain ⟨after, hafter⟩ := hprefix
  obtain ⟨n', rest', hscan, hle⟩ := hm.exists_scan? after
  rw [hafter, text_append_of_scan? h, h] at hscan
  obtain ⟨rfl, rfl⟩ := Prod.mk.inj (Option.some.inj hscan)
  exact hle

/-- The longest numeral at the start of a text is scanned. -/
theorem IsProper.scan?_append (h : n.IsProper) (hlongest : n.IsLongest after) :
    scan? (n.text ++ after) = some (n, after) := by
  obtain ⟨m, rest, hscan, hle⟩ := h.exists_scan? after
  have hm := isProper_of_scan? hscan
  have happend : m.text ++ rest = n.text ++ after := text_append_of_scan? hscan
  have hlength : m.text.length = n.text.length := by
    apply Nat.le_antisymm _ hle
    exact hlongest m hm (happend ▸ List.prefix_append _ _)
  obtain ⟨htext, rfl⟩ := List.append_inj happend hlength
  obtain rfl := hm.eq_of_text h htext
  exact hscan

theorem scan?_eq_none_iff : scan? s = none ↔ ∀ n : Numeral, n.IsProper → ¬ n.text <+: s := by
  constructor
  · rintro h n hn ⟨after, rfl⟩
    obtain ⟨n', rest, hscan, -⟩ := hn.exists_scan? after
    rw [h] at hscan
    cases hscan
  · intro h
    cases hscan : scan? s with
    | none => rfl
    | some result =>
      obtain ⟨n, rest⟩ := result
      refine absurd ?_ (h n (isProper_of_scan? hscan))
      exact ⟨rest, text_append_of_scan? hscan⟩

end Numeral

namespace Arithmetic

/-! ## The scan -/

/-- The characters that are tokens by themselves. -/
def marks : List Char := ['+', '-', '*', '/', '%', '(', ')']

/-- A lexeme that may stand in front of a text: what follows does not belong to it. -/
inductive Lexeme.Fits : Lexeme → List Char → Prop
  | number {n : Numeral} {after : List Char} (hproper : n.IsProper) (hlongest : n.IsLongest after) :
    Fits (.number n) after
  | mark {lexeme : Lexeme} {c : Char} (after : List Char) (hnumber : lexeme.isNumber = false)
    (htext : lexeme.text = [c]) (hmark : c ∈ marks) : Fits lexeme after

/-- What has been read of a source, the tokens in it, and what is left of the source. -/
inductive Scanned : List Char → List Token → List Char → Prop
  | start (source : List Char) : Scanned [] [] source
  | blank {read rest : List Char} {tokens : List Token} {c : Char}
    (h : Scanned read tokens (c :: rest)) (hblank : Text.isBlank c = true) :
    Scanned (read ++ [c]) tokens rest
  | token {read rest : List Char} {tokens : List Token} {lexeme : Lexeme}
    (h : Scanned read tokens (lexeme.text ++ rest)) (hfits : lexeme.Fits rest) :
    Scanned (read ++ lexeme.text) (tokens ++ [⟨lexeme, read.length⟩]) rest

/-- A character in front of a text that is no blank and with which no token begins. -/
structure IsStray (c : Char) (after : List Char) : Prop where
  blank : Text.isBlank c = false
  mark : c ∉ marks
  numeral : ∀ n : Numeral, n.IsProper → ¬ n.text <+: c :: after

theorem Lexeme.ofChar?_eq_none_iff {c : Char} : Lexeme.ofChar? c = none ↔ c ∉ marks := by
  unfold Lexeme.ofChar?
  split
  case h_8 =>
    simp only [marks, List.mem_cons, List.not_mem_nil, or_false]
    tauto
  all_goals exact iff_of_false (fun h ↦ by cases h) fun h ↦ h (by decide)

theorem Lexeme.text_symbol (lexeme : Lexeme) : lexeme.symbol.text Numeral.text = lexeme.text := by
  cases lexeme <;> rfl

theorem Lexeme.fits_of_ofChar? {c : Char} {lexeme : Lexeme} (h : Lexeme.ofChar? c = some lexeme)
    (after : List Char) : lexeme.text = [c] ∧ lexeme.Fits after := by
  obtain ⟨htext, hatom⟩ := Lexeme.text_of_ofChar? h
  rw [Lexeme.text_symbol] at htext
  have hnumber : lexeme.isNumber = false := by
    cases lexeme with
    | number n => cases hatom
    | _ => rfl
  have hmark : c ∈ marks := by
    by_contra hmark
    rw [Lexeme.ofChar?_eq_none_iff.mpr hmark] at h
    cases h
  exact ⟨htext, .mark after hnumber htext hmark⟩

variable {read rest : List Char} {tokens : List Token} {lexeme : Lexeme}

theorem Lexeme.Fits.text_ne_nil (h : lexeme.Fits rest) : lexeme.text ≠ [] := by
  cases h with
  | number hproper hlongest => exact Numeral.text_ne_nil_of_scan? (hproper.scan?_append hlongest)
  | mark _ _ htext => exact htext ▸ List.cons_ne_nil _ _

/-- A lexeme that fits is the next token. -/
theorem Lexeme.Fits.tokensFrom_append (h : lexeme.Fits rest) (position : Nat) :
    tokensFrom position (lexeme.text ++ rest) =
      (tokensFrom (position + lexeme.text.length) rest).map (⟨lexeme, position⟩ :: ·) := by
  cases h with
  | @number n _ hproper hlongest =>
    have hscan := hproper.scan?_append hlongest
    obtain ⟨c, cs, htext⟩ := List.exists_cons_of_ne_nil (Numeral.text_ne_nil_of_scan? hscan)
    rw [htext, List.cons_append] at hscan
    have hblank : Text.isBlank c = false := by
      by_contra hblank
      rw [Bool.not_eq_false] at hblank
      have hpoint : c ≠ '.' := by
        rintro rfl
        exact absurd hblank (by decide)
      rw [scan?_eq_none (Text.isDigit_of_isBlank hblank) hpoint] at hscan
      cases hscan
    rw [Lexeme.text, htext, List.cons_append, tokensFrom_numeral hblank hscan, htext]
  | mark _ hnumber htext =>
    have hatom : lexeme.symbol.isAtom = false := by
      cases lexeme with
      | number n => cases hnumber
      | _ => rfl
    obtain ⟨c, lexeme', hmark⟩ := exists_isMark hatom
    obtain rfl : lexeme' = lexeme := Lexeme.symbol_injective hmark.symbol
    have htokens := hmark.tokensFrom position rest
    rw [Lexeme.text_symbol] at htokens
    rw [htokens, htext]
    rfl

theorem IsStray.tokensFrom_cons {c : Char} (h : IsStray c rest) (position : Nat) :
    tokensFrom position (c :: rest) = .error (.unexpectedCharacter c position) := by
  have hscan := Numeral.scan?_eq_none_iff.mpr h.numeral
  unfold tokensFrom
  rw [h.blank, if_neg Bool.false_ne_true]
  split
  case h_1 heq =>
    rw [hscan] at heq
    cases heq
  case h_2 => rw [Lexeme.ofChar?_eq_none_iff.mpr h.mark]

/-! ## Its steps -/

/-- What has been scanned are the first tokens. -/
theorem Scanned.tokensFrom_eq (h : Scanned read tokens rest) :
    tokensFrom 0 (read ++ rest) = (tokensFrom read.length rest).map (tokens ++ ·) := by
  induction h with
  | start source =>
    rw [List.nil_append, List.length_nil]
    cases tokensFrom 0 source <;> rfl
  | @blank read rest tokens c h hblank ih =>
    rw [List.append_assoc, List.singleton_append, ih, tokensFrom_blank hblank, List.length_append,
      List.length_singleton]
  | @token read rest tokens lexeme h hfits ih =>
    rw [List.append_assoc, ih, hfits.tokensFrom_append, List.length_append]
    cases tokensFrom (read.length + lexeme.text.length) rest with
    | error fault => rfl
    | ok others =>
      exact congrArg Except.ok (List.append_assoc tokens [_] others).symm

/-- The scan can go on unless it meets a stray character. -/
theorem exists_step (c : Char) (rest : List Char) :
    Text.isBlank c = true ∨
      (∃ (lexeme : Lexeme) (after : List Char),
        c :: rest = lexeme.text ++ after ∧ lexeme.Fits after) ∨
      IsStray c rest := by
  cases hblank : Text.isBlank c with
  | true => exact .inl rfl
  | false =>
    right
    cases hscan : Numeral.scan? (c :: rest) with
    | some result =>
      obtain ⟨n, after⟩ := result
      refine .inl ⟨.number n, after, (Numeral.text_append_of_scan? hscan).symm, ?_⟩
      exact .number (Numeral.isProper_of_scan? hscan) (Numeral.isLongest_of_scan? hscan)
    | none =>
      cases hlexeme : Lexeme.ofChar? c with
      | some lexeme =>
        obtain ⟨htext, hfits⟩ := Lexeme.fits_of_ofChar? hlexeme rest
        exact .inl ⟨lexeme, rest, htext ▸ rfl, hfits⟩
      | none =>
        exact .inr ⟨hblank, Lexeme.ofChar?_eq_none_iff.mp hlexeme,
          Numeral.scan?_eq_none_iff.mp hscan⟩

/-- The scan comes to the end of the source or to a stray character. -/
theorem Scanned.exists_end (h : Scanned read tokens rest) :
    (∃ tokens', Scanned (read ++ rest) tokens' []) ∨
      ∃ read' tokens' c rest', Scanned read' tokens' (c :: rest') ∧
        read' ++ c :: rest' = read ++ rest ∧ IsStray c rest' := by
  induction hlength : rest.length using Nat.strong_induction_on generalizing read tokens rest with
  | _ length ih =>
    cases rest with
    | nil => exact .inl ⟨tokens, (List.append_nil read).symm ▸ h⟩
    | cons c rest =>
      rcases exists_step c rest with hblank | ⟨lexeme, after, htext, hfits⟩ | hstray
      · have hend := ih rest.length (hlength ▸ Nat.lt_add_one _) (h.blank hblank) rfl
        rwa [List.append_assoc, List.singleton_append] at hend
      · rw [htext] at h hlength ⊢
        have hlt : after.length < length := by
          have hpositive := List.length_pos_iff.mpr hfits.text_ne_nil
          rw [List.length_append] at hlength
          omega
        have hend := ih after.length hlt (h.token hfits) rfl
        rwa [List.append_assoc] at hend
      · exact .inr ⟨read, tokens, c, rest, h, rfl, hstray⟩

/-! ## Its tokens -/

theorem Scanned.tokens_eq {source : String} (h : Scanned source.toList tokens []) :
    Arithmetic.tokens source = .ok tokens := by
  have htokens := h.tokensFrom_eq
  rw [List.append_nil, tokensFrom_nil] at htokens
  rw [Arithmetic.tokens, htokens]
  exact congrArg Except.ok (List.append_nil tokens)

theorem Scanned.tokens_eq_error {source : String} {c : Char} (h : Scanned read tokens (c :: rest))
    (hsource : read ++ c :: rest = source.toList) (hstray : IsStray c rest) :
    Arithmetic.tokens source = .error (.unexpectedCharacter c read.length) := by
  have htokens := h.tokensFrom_eq
  rw [hsource, hstray.tokensFrom_cons] at htokens
  exact htokens

/--
The tokens of a source are those that the scan takes on its way to the end. There are none if and only
if it meets a stray character on the way, and the fault names the character and its place.
-/
theorem tokens_scanned (source : String) :
    (∀ tokens, Arithmetic.tokens source = .ok tokens ↔ Scanned source.toList tokens []) ∧
    ∀ fault, Arithmetic.tokens source = .error fault ↔
      ∃ read tokens c rest, Scanned read tokens (c :: rest) ∧
        read ++ c :: rest = source.toList ∧ IsStray c rest ∧
        fault = .unexpectedCharacter c read.length ∧
        fault.message =
          s!"Unexpected character {Text.quoted (String.singleton c)} at position {read.length}" := by
  have hend := (Scanned.start source.toList).exists_end
  rw [List.nil_append] at hend
  constructor
  · intro tokens
    refine ⟨fun h ↦ ?_, Scanned.tokens_eq⟩
    rcases hend with ⟨tokens', hall⟩ | ⟨read, tokens', c, rest, hscanned, hsource, hstray⟩
    · have htokens : tokens' = tokens := Except.ok.inj (hall.tokens_eq.symm.trans h)
      exact htokens ▸ hall
    · cases (hscanned.tokens_eq_error hsource hstray).symm.trans h
  · intro fault
    constructor
    · intro h
      rcases hend with ⟨tokens', hall⟩ | ⟨read, tokens', c, rest, hscanned, hsource, hstray⟩
      · cases hall.tokens_eq.symm.trans h
      · have hfault : .unexpectedCharacter c read.length = fault :=
          Except.error.inj ((hscanned.tokens_eq_error hsource hstray).symm.trans h)
        exact ⟨read, tokens', c, rest, hscanned, hsource, hstray, hfault.symm, hfault ▸ rfl⟩
    · rintro ⟨read, tokens, c, rest, h, hsource, hstray, rfl, -⟩
      exact h.tokens_eq_error hsource hstray

end Arithmetic

end KeyTree
