import KeyTree.Proofs.Arithmetic.Lexing

/-!
# Texts of one numeral

A text of plain digits, points and blanks is an expression if it is a numeral in blanks, and only then.
A number is read from it in the same case, if no information separator is among the blanks, and the
number is the value of the numeral.
-/

namespace KeyTree

namespace Text

/-- A text splits into what is trimmed and what is left. -/
theorem exists_of_trim (p : Char → Bool) (s : List Char) :
    ∃ before after, (∀ c ∈ before, p c = true) ∧ (∀ c ∈ after, p c = true) ∧
      s = before ++ (trim p s ++ after) := by
  have htaken (s : List Char) : ∀ c ∈ s.takeWhile p, p c = true :=
    List.all_eq_true.mp List.all_takeWhile
  refine ⟨s.takeWhile p, ((s.dropWhile p).reverse.takeWhile p).reverse, htaken s,
    fun c hc ↦ htaken _ c (List.mem_reverse.mp hc), ?_⟩
  rw [trim, ← List.reverse_append, List.takeWhile_append_dropWhile, List.reverse_reverse,
    List.takeWhile_append_dropWhile]

/-- Blanks have no case. -/
theorem toLower_of_isBlank {c : Char} (h : isBlank c = true) : c.toLower = c := by
  apply dif_neg
  rintro ⟨hleast, hgreatest⟩
  rw [ge_iff_le, UInt32.le_iff_toNat_le] at hleast
  rw [UInt32.le_iff_toNat_le] at hgreatest
  change 65 ≤ c.toNat at hleast
  change c.toNat ≤ 90 at hgreatest
  simp only [isBlank, isSeparator, Bool.or_eq_true, decide_eq_true_eq, beq_iff_eq] at h
  omega

end Text

namespace Numeral

/-- What is scanned has digits, and some. -/
theorem digits_of_scan? {s rest : List Char} {n : Numeral} (h : scan? s = some (n, rest)) :
    (∀ c ∈ n.whole ++ n.fraction.getD [], Text.isDigit c = true) ∧
      n.whole ++ n.fraction.getD [] ≠ [] := by
  have htaken (s : List Char) : ∀ c ∈ s.takeWhile Text.isDigit, Text.isDigit c = true :=
    List.all_eq_true.mp List.all_takeWhile
  unfold scan? at h
  dsimp only at h
  split at h
  case h_1 behind _ =>
    split at h
    case isTrue => cases h
    case isFalse hsome =>
      obtain ⟨rfl, -⟩ := Prod.mk.inj (Option.some.inj h)
      constructor
      · exact fun c hc ↦ (List.mem_append.mp hc).elim (htaken s c) (htaken behind c)
      · rw [Option.getD_some, ne_eq, List.append_eq_nil_iff, ← List.isEmpty_iff, ← List.isEmpty_iff,
          ← Bool.and_eq_true]
        exact hsome
  case h_2 =>
    split at h
    case isTrue => cases h
    case isFalse hsome =>
      obtain ⟨rfl, -⟩ := Prod.mk.inj (Option.some.inj h)
      rw [Option.getD_none, List.append_nil]
      exact ⟨htaken s, fun hnil ↦ hsome (List.isEmpty_iff.mpr hnil)⟩

theorem mem_text_of_mem {n : Numeral} {c : Char} (hc : c ∈ n.whole ++ n.fraction.getD []) :
    c ∈ n.text := by
  rw [text]
  cases hfraction : n.fraction with
  | none => rwa [hfraction] at hc
  | some behind =>
    rw [hfraction, List.mem_append] at hc
    rw [List.mem_append]
    exact hc.imp_right (List.mem_cons_of_mem '.')

/-- Plain digits, points and blanks. -/
def IsNumeralText (s : List Char) : Prop :=
  ∀ c ∈ s, isNumeralChar c = true ∨ Text.isBlank c = true

theorem isNumeralText_of_all {s : List Char}
    (h : s.all (fun c ↦ isNumeralChar c || Text.isBlank c) = true) : IsNumeralText s :=
  fun c hc ↦ (Bool.or_eq_true _ _).mp (List.all_eq_true.mp h c hc)

/-- A numeral that is scanned in a text of plain digits, points and blanks is plain. -/
theorem isPlain_of_scan? {s rest : List Char} {n : Numeral} (h : scan? s = some (n, rest))
    (htext : IsNumeralText n.text) : n.IsPlain := by
  obtain ⟨hdigits, hsome⟩ := digits_of_scan? h
  refine ⟨fun c hc ↦ ?_, hsome⟩
  have hdigit := hdigits c hc
  rcases htext c (mem_text_of_mem hc) with hchar | hblank
  · rw [isNumeralChar, Bool.or_eq_true, beq_iff_eq] at hchar
    apply hchar.resolve_right
    rintro rfl
    exact absurd hdigit (by decide)
  · rw [Text.isDigit_of_isBlank hblank] at hdigit
    cases hdigit

/-- A text that is a plain numeral, with characters of one class around it. -/
structure Surrounded (p : Char → Bool) (n : Numeral) (s : List Char) : Prop where
  plain : n.IsPlain
  margins : ∃ before after, (∀ c ∈ before, p c = true) ∧ (∀ c ∈ after, p c = true) ∧
    s = before ++ (n.text ++ after)

/-- Without separators, blanks are what may stand around a number. -/
theorem surrounded_isMargin_iff {n : Numeral} {s : List Char} :
    Surrounded Number.isMargin n s ↔
      Surrounded Text.isBlank n s ∧ ∀ c ∈ s, Text.isSeparator c = false := by
  have hmargin (c : Char) :
      Number.isMargin c = true ↔ Text.isBlank c = true ∧ Text.isSeparator c = false := by
    rw [Number.isMargin, Bool.and_eq_true, Bool.not_eq_true']
  constructor
  · rintro ⟨hplain, before, after, hbefore, hafter, rfl⟩
    refine ⟨⟨hplain, before, after, fun c hc ↦ ((hmargin c).mp (hbefore c hc)).1,
      fun c hc ↦ ((hmargin c).mp (hafter c hc)).1, rfl⟩, fun c hc ↦ ?_⟩
    rcases List.mem_append.mp hc with hc | hc
    · exact ((hmargin c).mp (hbefore c hc)).2
    · rcases List.mem_append.mp hc with hc | hc
      · have hnone := all_of_isNumeralChar (p := fun c ↦ !Text.isSeparator c) (by decide)
          (hplain.isNumeralChar_of_mem hc)
        exact (Bool.not_eq_true' _).mp hnone
      · exact ((hmargin c).mp (hafter c hc)).2
  · rintro ⟨⟨hplain, before, after, hbefore, hafter, rfl⟩, hnone⟩
    refine ⟨hplain, before, after, fun c hc ↦ (hmargin c).mpr ⟨hbefore c hc, hnone c ?_⟩,
      fun c hc ↦ (hmargin c).mpr ⟨hafter c hc, hnone c ?_⟩, rfl⟩
    · exact List.mem_append_left _ hc
    · exact List.mem_append_right _ (List.mem_append_right _ hc)

end Numeral

/-! ## The expression -/

namespace Arithmetic

theorem Laid.cons_blank {ω : Type} {word : ω → List Char} {ws : List ω} {text : List Char} {c : Char}
    (h : Laid word ws text) (hc : Text.isBlank c = true) : Laid word ws (c :: text) := by
  cases h with
  | nil hblanks => exact .nil (List.forall_mem_cons.mpr ⟨hc, hblanks⟩)
  | cons hblanks hlaid => exact .cons (List.forall_mem_cons.mpr ⟨hc, hblanks⟩) hlaid

theorem Lexeme.text_of_ofChar? {c : Char} {lexeme : Lexeme} (h : Lexeme.ofChar? c = some lexeme) :
    lexeme.symbol.text Numeral.text = [c] ∧ lexeme.symbol.isAtom = false := by
  unfold Lexeme.ofChar? at h
  split at h
  case h_8 => cases h
  all_goals
    obtain rfl := Option.some.inj h
    exact ⟨rfl, rfl⟩

/-- The tokens of a text leave out blanks alone, and their numerals are scanned. -/
theorem laid_of_tokensFrom {position : Nat} {s : List Char} {tokens : List Token}
    (h : tokensFrom position s = .ok tokens) :
    Laid (Symbol.text Numeral.text) (tokens.map Token.symbol) s ∧
      ∀ n, .atom n ∈ tokens.map Token.symbol → ∃ s rest, Numeral.scan? s = some (n, rest) := by
  induction position, s using tokensFrom.induct generalizing tokens with
  | case1 position =>
    rw [tokensFrom_nil] at h
    obtain rfl := Except.ok.inj h
    exact ⟨.nil (List.forall_mem_nil _), fun n hn ↦ by cases hn⟩
  | case2 position c rest hblank ih =>
    rw [tokensFrom_blank hblank] at h
    obtain ⟨hlaid, hscanned⟩ := ih h
    exact ⟨hlaid.cons_blank hblank, hscanned⟩
  | case3 position c rest hblank n after hscan _ ih =>
    rw [tokensFrom_numeral ((Bool.not_eq_true _).mp hblank) hscan] at h
    obtain ⟨others, hothers, rfl⟩ := exists_of_map_eq_ok h
    obtain ⟨hlaid, hscanned⟩ := ih hothers
    rw [← Numeral.text_append_of_scan? hscan]
    refine ⟨.cons (List.forall_mem_nil _) hlaid, fun n' hn' ↦ ?_⟩
    rcases List.mem_cons.mp hn' with heq | hmem
    · obtain rfl := Symbol.atom.inj heq
      exact ⟨_, _, hscan⟩
    · exact hscanned n' hmem
  | case4 position c rest hblank hscan lexeme hlexeme ih =>
    rw [tokensFrom_char ((Bool.not_eq_true _).mp hblank) hscan hlexeme] at h
    obtain ⟨others, hothers, rfl⟩ := exists_of_map_eq_ok h
    obtain ⟨hlaid, hscanned⟩ := ih hothers
    obtain ⟨htext, hatom⟩ := Lexeme.text_of_ofChar? hlexeme
    have hcons : Laid (Symbol.text Numeral.text) (lexeme.symbol :: others.map Token.symbol)
        ([] ++ (lexeme.symbol.text Numeral.text ++ rest)) := .cons (List.forall_mem_nil _) hlaid
    rw [htext] at hcons
    refine ⟨hcons, fun n hn ↦ ?_⟩
    rcases List.mem_cons.mp hn with heq | hmem
    · have hsymbol : lexeme.symbol = .atom n := heq.symm
      rw [hsymbol] at hatom
      cases hatom
    · exact hscanned n hmem
  | case5 position c rest hblank hscan hlexeme =>
    unfold tokensFrom at h
    rw [if_neg hblank] at h
    split at h
    case h_1 heq =>
      rw [hscan] at heq
      cases heq
    case h_2 =>
      rw [hlexeme] at h
      cases h

/-- A numeral in blanks is the expression that it alone makes up. -/
theorem parse_of_surrounded {n : Numeral} {s : List Char} (h : n.Surrounded Text.isBlank s)
    (room : Nat) : parse room (String.ofList s) = .ok (.literal n.toFloat) := by
  obtain ⟨hplain, before, after, hbefore, hafter, rfl⟩ := h
  have htokens : tokensFrom (0 + before.length + n.text.length) after = .ok [] := by
    rw [← List.append_nil after, tokensFrom_blanks hafter, tokensFrom_nil]
  rw [parse, tokens, String.toList_ofList, tokensFrom_blanks hbefore,
    tokensFrom_plain hplain (endsNumeral_of_isBlank hafter), htokens]
  rfl

/-- An expression of plain digits, points and blanks is a numeral in blanks. -/
theorem surrounded_of_parse {room : Nat} {s : List Char} {p : Program} (hs : Numeral.IsNumeralText s)
    (h : parse room (String.ofList s) = .ok p) :
    ∃ n : Numeral, n.Surrounded Text.isBlank s ∧ p = .literal n.toFloat := by
  obtain ⟨tokens, htokens, hparse⟩ := exists_of_bind_eq_ok h
  rw [Arithmetic.tokens, String.toList_ofList] at htokens
  obtain ⟨hlaid, hscanned⟩ := laid_of_tokensFrom htokens
  obtain ⟨e, hsymbols, -⟩ := exists_symbols_of_parseTokens hparse
  rw [← hsymbols] at hlaid hscanned
  -- An operator or a parenthesis would stand in the text.
  have hatoms : ∀ s ∈ e.symbols, s.isAtom = true := by
    intro symbol hsymbol
    by_contra hatom
    obtain ⟨c, lexeme, hmark⟩ := exists_isMark ((Bool.not_eq_true _).mp hatom)
    have hmem : c ∈ symbol.text Numeral.text := hmark.text ▸ List.mem_singleton_self c
    have hdigit : Text.isPlainDigit c = false := by
      rw [← Bool.not_eq_true]
      intro hplain
      have hdigit := Text.isDigit_of_isPlainDigit hplain
      rw [hmark.digit] at hdigit
      cases hdigit
    rcases hs c (hlaid.mem_of_mem hsymbol hmem) with hnumeral | hblank
    · rw [Numeral.isNumeralChar, hdigit, Bool.false_or, beq_iff_eq] at hnumeral
      exact hmark.point hnumeral
    · rw [hmark.blank] at hblank
      cases hblank
  obtain ⟨n, hone⟩ := e.separated.exists_atom e.symbols_ne_nil hatoms
  rw [hone] at hlaid hscanned
  obtain ⟨scanned, rest, hscan⟩ := hscanned n List.mem_cons_self
  obtain ⟨before, after, hbefore, hafter, rfl⟩ := hlaid.exists_blanks
  have htext : Numeral.IsNumeralText n.text :=
    fun c hc ↦ hs c (List.mem_append_right _ (List.mem_append_left _ hc))
  have hsurrounded : n.Surrounded Text.isBlank (before ++ (n.text ++ after)) :=
    ⟨Numeral.isPlain_of_scan? hscan htext, before, after, hbefore, hafter, rfl⟩
  refine ⟨n, hsurrounded, ?_⟩
  exact Except.ok.inj (h.symm.trans (parse_of_surrounded hsurrounded room))

theorem parse_eq_ok_iff_surrounded (room : Nat) {s : List Char} (hs : Numeral.IsNumeralText s)
    (p : Program) : parse room (String.ofList s) = .ok p ↔
      ∃ n : Numeral, n.Surrounded Text.isBlank s ∧ p = .literal n.toFloat := by
  constructor
  · exact surrounded_of_parse hs
  · rintro ⟨n, hsurrounded, rfl⟩
    exact parse_of_surrounded hsurrounded room

end Arithmetic

/-! ## The number -/

namespace Number

open Numeral (IsNumeralText Surrounded)

theorem read?_of_surrounded {n : Numeral} {s : List Char} (h : n.Surrounded isMargin s) :
    read? (String.ofList s) = some n.toFloat := by
  obtain ⟨hplain, before, after, hbefore, hafter, rfl⟩ := h
  exact read?_of_isPlain hplain false hbefore hafter

/-- Characters that are neither plain digits nor points nor blanks. -/
theorem ne_of_isNumeralText {s : List Char} (hs : IsNumeralText s) {other : Char}
    (hother : (Numeral.isNumeralChar other || Text.isBlank other) = false) : ∀ c ∈ s, c ≠ other := by
  rintro c hc rfl
  rw [Bool.or_eq_false_iff] at hother
  rcases hs c hc with hchar | hblank
  · rw [hother.1] at hchar
    cases hchar
  · rw [hother.2] at hblank
    cases hblank

theorem scanSign_of_isNumeralText {s : List Char} (hs : IsNumeralText s) :
    scanSign s = (false, s) := by
  unfold scanSign
  split
  case h_1 rest => exact absurd rfl (ne_of_isNumeralText hs (by decide) '-' List.mem_cons_self)
  case h_2 rest => exact absurd rfl (ne_of_isNumeralText hs (by decide) '+' List.mem_cons_self)
  case h_3 => rfl

theorem scanExponent_of_isNumeralText {s : List Char} (hs : IsNumeralText s) :
    scanExponent s = (0, s) := by
  cases s with
  | nil => rfl
  | cons mark rest =>
    have hmark : ¬ (mark = 'e' ∨ mark = 'E') := by
      rintro (rfl | rfl)
      · exact absurd rfl (ne_of_isNumeralText hs (by decide) 'e' List.mem_cons_self)
      · exact absurd rfl (ne_of_isNumeralText hs (by decide) 'E' List.mem_cons_self)
    exact if_neg hmark

/-- No letter of a name is a plain digit, a point or a blank. -/
theorem ofList_toLower_ne_of_isNumeralText {s : List Char} (hs : IsNumeralText s) {name : String}
    (hname : 'n' ∈ name.toList) : String.ofList (s.map Char.toLower) ≠ name := by
  have hlower : s.map Char.toLower = s := by
    rw [List.map_congr_left (g := id), List.map_id]
    intro c hc
    rcases hs c hc with hchar | hblank
    · have hsame := Numeral.all_of_isNumeralChar (p := fun c ↦ c.toLower == c) (by decide) hchar
      exact eq_of_beq hsame
    · exact Text.toLower_of_isBlank hblank
  rintro rfl
  rw [String.toList_ofList, hlower] at hname
  exact ne_of_isNumeralText hs (by decide) 'n' hname rfl

/-- A number in a text of plain digits, points and blanks is a numeral. -/
theorem surrounded_of_read? {s : List Char} {x : Float} (hs : IsNumeralText s)
    (h : read? (String.ofList s) = some x) :
    ∃ n : Numeral, n.Surrounded isMargin s ∧ x = n.toFloat := by
  obtain ⟨before, after, hbefore, hafter, htext⟩ := Text.exists_of_trim isMargin s
  have hcore : IsNumeralText (Text.trim isMargin s) :=
    fun c hc ↦ hs c (htext ▸ List.mem_append_right _ (List.mem_append_left _ hc))
  unfold read? at h
  rw [String.toList_ofList] at h
  generalize Text.trim isMargin s = core at h hcore htext
  have hgroup : ungroup? false core = some core :=
    ungroup?_of_not_mem (fun hmem ↦ ne_of_isNumeralText hcore (by decide) '_' hmem rfl) false
  have hinfinity : infinityNames.contains (String.ofList (core.map Char.toLower)) = false := by
    rw [← Bool.not_eq_true, List.contains_iff_mem]
    intro hmem
    rcases List.mem_pair.mp hmem with hname | hname
    · exact ofList_toLower_ne_of_isNumeralText hcore (by decide) hname
    · exact ofList_toLower_ne_of_isNumeralText hcore (by decide) hname
  have hnan : String.ofList (core.map Char.toLower) ≠ "nan" :=
    ofList_toLower_ne_of_isNumeralText hcore (by decide)
  simp only [hgroup, Option.bind_eq_bind, Option.bind_some, scanSign_of_isNumeralText hcore,
    hinfinity, if_neg hnan, Bool.false_eq_true, if_false] at h
  split at h
  case h_1 x' hscan =>
    obtain rfl := Option.some.inj h
    rw [scan?, scanSign_of_isNumeralText hcore] at hscan
    obtain ⟨⟨n, rest⟩, hnumeral, hexponent⟩ := Option.map_eq_some_iff.mp hscan
    have hwhole := Numeral.text_append_of_scan? hnumeral
    have hparts : IsNumeralText n.text ∧ IsNumeralText rest := by
      rw [← hwhole] at hcore
      exact List.forall_mem_append.mp hcore
    dsimp only at hexponent
    rw [scanExponent_of_isNumeralText hparts.2] at hexponent
    obtain ⟨hvalue, rfl⟩ := Prod.mk.inj hexponent
    rw [List.append_nil] at hwhole
    exact ⟨n, ⟨Numeral.isPlain_of_scan? hnumeral hparts.1, before, after, hbefore, hafter,
      hwhole ▸ htext⟩, hvalue.symm⟩
  case h_2 => cases h

theorem read?_eq_some_iff_surrounded {s : List Char} (hs : IsNumeralText s) (x : Float) :
    read? (String.ofList s) = some x ↔ ∃ n : Numeral, n.Surrounded isMargin s ∧ x = n.toFloat := by
  constructor
  · exact surrounded_of_read? hs
  · rintro ⟨n, hsurrounded, rfl⟩
    exact read?_of_surrounded hsurrounded

end Number

end KeyTree
