import KeyTree.Number.Written
import KeyTree.Proofs.Json.Numbers

/-!
# Numbers as they are shown

A numeral of plain digits is scanned whole, if what follows does not go on with it, and it is read as
a number with a sign in front of it and blanks around it. What is shown of a number without any
letters is such a text.
-/

namespace KeyTree

/-- No blank is a digit of any script. -/
theorem Text.isDigit_of_isBlank {c : Char} (h : isBlank c = true) : isDigit c = false := by
  rw [← Char.ofNat_toNat c]
  simp only [isBlank, isSeparator, Bool.or_eq_true, decide_eq_true_eq, beq_iff_eq] at h
  generalize c.toNat = code at h
  have hcode : (9 ≤ code ∧ code ≤ 13) ∨ (0x1C ≤ code ∧ code ≤ 0x20) ∨ code = 0x85 ∨
      code = 0xA0 ∨ code = 0x1680 ∨ (0x2000 ≤ code ∧ code ≤ 0x200A) ∨
      (0x2028 ≤ code ∧ code ≤ 0x2029) ∨ code = 0x202F ∨ code = 0x205F ∨ code = 0x3000 := by
    omega
  rcases hcode with ⟨_, _⟩ | ⟨_, _⟩ | rfl | rfl | rfl | ⟨_, _⟩ | ⟨_, _⟩ | rfl | rfl | rfl
  all_goals first | rfl | (interval_cases code <;> rfl)

namespace Numeral

/-- A numeral of the digits 0 to 9, with at least one of them. -/
structure IsPlain (n : Numeral) : Prop where
  digits : ∀ c ∈ n.whole ++ n.fraction.getD [], Text.isPlainDigit c = true
  nonempty : n.whole ++ n.fraction.getD [] ≠ []

/-- Characters of numerals. -/
def isNumeralChar (c : Char) : Bool := Text.isPlainDigit c || c == '.'

/-- What is true of the eleven characters of numerals. -/
theorem all_of_isNumeralChar {p : Char → Bool}
    (h : ['.', '0', '1', '2', '3', '4', '5', '6', '7', '8', '9'].all p = true) {c : Char}
    (hc : isNumeralChar c = true) : p c = true := by
  apply List.all_eq_true.mp h c
  rw [isNumeralChar, Bool.or_eq_true] at hc
  rcases hc with hdigit | hpoint
  · obtain ⟨hleast, hgreatest⟩ := Text.toNat_of_isPlainDigit hdigit
    rw [← Char.ofNat_toNat c]
    generalize c.toNat = code at hleast hgreatest
    interval_cases code <;> decide
  · rw [eq_of_beq hpoint]
    exact List.mem_cons_self

/-- What follows a numeral does not go on with it. -/
def EndsNumeral (after : List Char) : Prop :=
  ∀ c ∈ after.head?, Text.isDigit c = false ∧ c ≠ '.'

/-- A plain numeral is scanned whole. -/
theorem IsPlain.scan?_append {n : Numeral} (h : n.IsPlain) {after : List Char}
    (hafter : EndsNumeral after) : scan? (n.text ++ after) = some (n, after) := by
  have hdigits (digits : List Char) (hsub : ∀ c ∈ digits, c ∈ n.whole ++ n.fraction.getD []) :
      ∀ c ∈ digits, Text.isDigit c = true :=
    fun c hc ↦ Text.isDigit_of_isPlainDigit (h.digits c (hsub c hc))
  have hdigit : ∀ c ∈ after.head?, Text.isDigit c = false := fun c hc ↦ (hafter c hc).1
  obtain ⟨whole, fraction⟩ := n
  have hwhole : ∀ c ∈ whole, Text.isDigit c = true :=
    hdigits whole fun c hc ↦ List.mem_append_left _ hc
  cases fraction with
  | none =>
    obtain ⟨htake, hdrop⟩ := Text.takeWhile_append_of_head hwhole hdigit
    have hsome : whole.isEmpty = false := by
      have hnonempty := h.nonempty
      rw [Option.getD_none, List.append_nil] at hnonempty
      exact List.isEmpty_eq_false_iff.mpr hnonempty
    unfold scan?
    rw [text, List.append_nil, htake, hdrop]
    dsimp only
    split
    case h_1 rest => exact absurd rfl (hafter '.' rfl).2
    case h_2 => rw [hsome]; rfl
  | some behind =>
    have hbehind : ∀ c ∈ behind, Text.isDigit c = true :=
      hdigits behind fun c hc ↦ List.mem_append_right _ hc
    have hpoint : ∀ c ∈ ('.' :: (behind ++ after)).head?, Text.isDigit c = false := by
      intro c hc
      obtain rfl : '.' = c := Option.some.inj hc
      decide
    obtain ⟨htake, hdrop⟩ := Text.takeWhile_append_of_head hwhole hpoint
    obtain ⟨htake', hdrop'⟩ := Text.takeWhile_append_of_head hbehind hdigit
    have hsome : (whole.isEmpty && behind.isEmpty) = false := by
      rw [Bool.and_eq_false_iff, List.isEmpty_eq_false_iff, List.isEmpty_eq_false_iff]
      have hnonempty := h.nonempty
      rwa [Option.getD_some, ne_eq, List.append_eq_nil_iff, not_and_or] at hnonempty
    unfold scan?
    rw [text, List.append_assoc, List.cons_append, htake, hdrop]
    simp only [htake', hdrop', hsome, Bool.false_eq_true, if_false]

theorem IsPlain.scan?_text {n : Numeral} (h : n.IsPlain) : scan? n.text = some (n, []) := by
  have hends : EndsNumeral [] := fun _ hc ↦ by cases hc
  have hscan := h.scan?_append hends
  rwa [List.append_nil] at hscan

theorem IsPlain.isNumeralChar_of_mem {n : Numeral} (h : n.IsPlain) {c : Char} (hc : c ∈ n.text) :
    isNumeralChar c = true := by
  have hdigit (hmem : c ∈ n.whole ++ n.fraction.getD []) : isNumeralChar c = true := by
    rw [isNumeralChar, h.digits c hmem]
    rfl
  rw [text, List.mem_append] at hc
  rcases hc with hc | hc
  · exact hdigit (List.mem_append_left _ hc)
  · cases hfraction : n.fraction with
    | none =>
      rw [hfraction] at hc
      cases hc
    | some behind =>
      rw [hfraction, List.mem_cons] at hc
      rcases hc with rfl | hc
      · rfl
      · apply hdigit
        rw [hfraction]
        exact List.mem_append_right _ hc

theorem IsPlain.text_ne_nil {n : Numeral} (h : n.IsPlain) : n.text ≠ [] :=
  text_ne_nil_of_scan? h.scan?_text

end Numeral

/-! ## Numbers in blanks -/

/-- A minus, or nothing. -/
def signText (minus : Bool) : List Char := if minus then ['-'] else []

/-- What stands in margins is trimmed. -/
theorem Text.trim_append {p : Char → Bool} {before core after : List Char}
    (hbefore : ∀ c ∈ before, p c = true) (hcore : ∀ c ∈ core, p c = false) (hsome : core ≠ [])
    (hafter : ∀ c ∈ after, p c = true) : trim p (before ++ (core ++ after)) = core := by
  have hfront : ∀ c ∈ (core ++ after).head?, p c = false := by
    intro c hc
    rw [List.head?_append_of_ne_nil _ hsome] at hc
    exact hcore c (List.mem_of_mem_head? hc)
  have hback : ∀ c ∈ core.reverse.head?, p c = false := by
    intro c hc
    exact hcore c (List.mem_reverse.mp (List.mem_of_mem_head? hc))
  have hreverse : ∀ c ∈ after.reverse, p c = true := fun c hc ↦ hafter c (List.mem_reverse.mp hc)
  rw [trim, (takeWhile_append_of_head hbefore hfront).2, List.reverse_append,
    (takeWhile_append_of_head hreverse hback).2, List.reverse_reverse]

namespace Number

theorem ungroup?_of_not_mem {s : List Char} (h : '_' ∉ s) (digitBefore : Bool) :
    ungroup? digitBefore s = some s := by
  induction s generalizing digitBefore with
  | nil => rfl
  | cons c s ih =>
    have hc : c ≠ '_' := fun heq ↦ h (heq ▸ List.mem_cons_self)
    rw [ungroup?]
    · rw [if_neg hc, ih fun hmem ↦ h (List.mem_cons_of_mem c hmem)]
      rfl
    · rintro d rest rfl
      exact absurd rfl hc

/-- Characters that neither surround a number nor sign, group or name one. -/
def isNeutral (c : Char) : Bool :=
  !isMargin c && c != '_' && c != '-' && c != '+' && c.toLower != 'i' && c.toLower != 'n'

theorem isNeutral_iff (c : Char) :
    isNeutral c = true ↔ isMargin c = false ∧ c ≠ '_' ∧ c ≠ '-' ∧ c ≠ '+' ∧ c.toLower ≠ 'i' ∧
      c.toLower ≠ 'n' := by
  simp only [isNeutral, Bool.and_eq_true, Bool.not_eq_true', bne_iff_ne, and_assoc]

/-- A text whose first character in lower case is another is no name. -/
theorem ofList_toLower_ne {first : Char} {rest : List Char} {name : String} {c : Char}
    (hname : name.toList.head? = some c) (hne : first.toLower ≠ c) :
    String.ofList ((first :: rest).map Char.toLower) ≠ name := by
  rintro rfl
  rw [String.toList_ofList, List.map_cons, List.head?_cons] at hname
  exact hne (Option.some.inj hname)

section

variable {n : Numeral} (h : n.IsPlain)

include h

theorem isNeutral_of_mem_text {c : Char} (hc : c ∈ n.text) : isNeutral c = true :=
  Numeral.all_of_isNumeralChar (by decide) (h.isNumeralChar_of_mem hc)

theorem scanSign_of_isPlain (minus : Bool) :
    scanSign (signText minus ++ n.text) = (minus, n.text) := by
  obtain ⟨first, rest, htext⟩ := List.exists_cons_of_ne_nil h.text_ne_nil
  obtain ⟨-, -, hminus, hplus, -, -⟩ :=
    (isNeutral_iff first).mp (isNeutral_of_mem_text h (htext ▸ List.mem_cons_self))
  cases minus with
  | true => rfl
  | false =>
    rw [signText, if_neg Bool.false_ne_true, List.nil_append, htext, scanSign]
    · intro tail heq
      exact hminus (List.cons.inj heq).1
    · intro tail heq
      exact hplus (List.cons.inj heq).1

/-- No numeral is a name of an infinity, or the name of what is no number. -/
theorem toLower_text_of_isPlain :
    infinityNames.contains (String.ofList (n.text.map Char.toLower)) = false ∧
      String.ofList (n.text.map Char.toLower) ≠ "nan" := by
  obtain ⟨first, rest, htext⟩ := List.exists_cons_of_ne_nil h.text_ne_nil
  obtain ⟨-, -, -, -, hi, hn⟩ :=
    (isNeutral_iff first).mp (isNeutral_of_mem_text h (htext ▸ List.mem_cons_self))
  rw [htext]
  refine ⟨?_, ofList_toLower_ne rfl hn⟩
  rw [← Bool.not_eq_true, List.contains_iff_mem]
  intro hmem
  rcases List.mem_pair.mp hmem with hname | hname
  · exact ofList_toLower_ne rfl hi hname
  · exact ofList_toLower_ne rfl hi hname

/-- What stands in a numeral with or without a minus is neither a margin nor a grouping. -/
theorem not_isMargin_of_mem {minus : Bool} {c : Char} (hc : c ∈ signText minus ++ n.text) :
    isMargin c = false ∧ c ≠ '_' := by
  rcases List.mem_append.mp hc with hc | hc
  · cases minus with
    | true =>
      rw [List.mem_singleton.mp hc]
      decide
    | false => cases hc
  · obtain ⟨hmargin, hgroup, -⟩ := (isNeutral_iff c).mp (isNeutral_of_mem_text h hc)
    exact ⟨hmargin, hgroup⟩

/-- A numeral in blanks, with or without a minus, is read as a number. -/
theorem read?_of_isPlain (minus : Bool) {before after : List Char}
    (hbefore : ∀ c ∈ before, isMargin c = true) (hafter : ∀ c ∈ after, isMargin c = true) :
    read? (String.ofList (before ++ (signText minus ++ n.text ++ after))) =
      some ((n.decimal 0).toFloat minus) := by
  have hgroup : '_' ∉ signText minus ++ n.text := fun hmem ↦ (not_isMargin_of_mem h hmem).2 rfl
  have hsign := scanSign_of_isPlain h minus
  have hscan : scan? (signText minus ++ n.text) = some ((n.decimal 0).toFloat minus, []) := by
    rw [scan?, hsign]
    dsimp only
    rw [h.scan?_text]
    rfl
  obtain ⟨hinfinity, hnan⟩ := toLower_text_of_isPlain h
  unfold read?
  rw [String.toList_ofList, Text.trim_append hbefore (fun c hc ↦ (not_isMargin_of_mem h hc).1)
    (List.append_ne_nil_of_right_ne_nil _ h.text_ne_nil) hafter, ungroup?_of_not_mem hgroup]
  simp only [Option.bind_eq_bind, Option.bind_some, hsign, hinfinity, if_neg hnan, hscan,
    Bool.false_eq_true, if_false]

end

end Number

theorem Quanta.nearestBits_le (num den : Nat) : nearestBits num den ≤ infinityBits :=
  Nat.min_le_right _ _

theorem Decimal.nearestBits_le (d : Decimal) : d.nearestBits ≤ Quanta.infinityBits := by
  unfold nearestBits
  split
  · exact Nat.zero_le _
  · split
    · exact Nat.le_refl _
    · split
      · exact Nat.zero_le _
      · split
        · exact Quanta.nearestBits_le _ _
        · exact Quanta.nearestBits_le _ _

/-- A minus in front of a numeral negates it. -/
theorem Numeral.toFloat_decimal_true (n : Numeral) : (n.decimal 0).toFloat true = -n.toFloat := by
  have hbits : (n.decimal 0).nearestBits < Quanta.signBit :=
    Nat.lt_of_le_of_lt (n.decimal 0).nearestBits_le (by decide)
  exact (Quanta.neg_toFloat hbits).symm

/-- A text that is a numeral, with or without a minus, is read as its number. -/
theorem Number.read?_of_toList {s : String} {minus : Bool} {n : Numeral} (h : n.IsPlain)
    (htext : s.toList = signText minus ++ n.text) :
    read? s = some (if minus then -n.toFloat else n.toFloat) := by
  have hread := read?_of_isPlain h minus (List.forall_mem_nil _) (List.forall_mem_nil _)
  rw [List.nil_append, List.append_nil, ← htext, String.ofList_toList] at hread
  rw [hread]
  cases minus with
  | true => rw [n.toFloat_decimal_true, if_pos rfl]
  | false => rfl

/-! ## What is shown of numbers -/

/-- The parts of a number without an exponent are a sign and a numeral of the same magnitude. -/
theorem Json.NumberParts.IsWritten.exists_numeral {parts : NumberParts} (h : parts.IsWritten)
    (hnone : 'e' ∉ parts.text) :
    ∃ n : Numeral, n.IsPlain ∧ parts.text = parts.sign ++ n.text ∧
      parts.decimal = n.decimal 0 := by
  obtain ⟨sign, whole, fraction, exponent⟩ := parts
  obtain ⟨-, hwhole, hfraction, hexponent⟩ := h
  have hdigits := hwhole.isPlainDigit
  obtain ⟨d, ds, rfl, -⟩ := hwhole.eq_cons
  cases hexponent with
  | digits => exact absurd (List.mem_append_right _ List.mem_cons_self) hnone
  | none =>
    cases hfraction with
    | none =>
      refine ⟨⟨d :: ds, none⟩, ⟨?_, List.cons_ne_nil _ _⟩, ?_, rfl⟩
      · intro c hc
        rw [Option.getD_none, List.append_nil] at hc
        exact hdigits c hc
      · simp [NumberParts.text, Numeral.text]
    | @digits behind _ hbehind =>
      refine ⟨⟨d :: ds, some behind⟩, ⟨?_, List.cons_ne_nil _ _⟩, ?_, rfl⟩
      · intro c hc
        rcases List.mem_append.mp hc with hc | hc
        · exact hdigits c hc
        · exact hbehind c hc
      · simp [NumberParts.text, Numeral.text]

/-- A written sign is a minus or nothing. -/
theorem Json.NumberParts.IsWritten.exists_minus {parts : NumberParts} (h : parts.IsWritten) :
    ∃ minus, parts.sign = signText minus := by
  rcases h.sign with hsign | hsign
  · exact ⟨false, hsign⟩
  · exact ⟨true, hsign⟩

namespace Number

/-- What is shown of a number has only digits, points and minuses, so no exponent and no name. -/
def IsShownPlain (x : Float) : Prop :=
  ∀ c ∈ (shown x).toList, Numeral.isNumeralChar c = true ∨ c = '-'

/-- A text of digits, points and minuses that a number has in documents is a signed numeral. -/
theorem exists_numeral_of_text {x : Float}
    (h : ∀ c ∈ (Layout.document.text x).toList, Numeral.isNumeralChar c = true ∨ c = '-') :
    ∃ (minus : Bool) (n : Numeral), n.IsPlain ∧
      (Layout.document.text x).toList = signText minus ++ n.text := by
  unfold Layout.text at h ⊢
  split at h
  case isTrue => exact absurd (h 'N' (by decide)) (by decide)
  case isFalse hnan =>
    rw [if_neg hnan]
    dsimp only at h ⊢
    split at h
    case isTrue hfinite =>
      rw [if_pos hfinite]
      obtain ⟨parts, hwritten, htext, -⟩ := Json.exists_parts_of_finite hfinite Layout.document
      rw [String.toList_ofList, ← htext] at h ⊢
      obtain ⟨n, hplain, hparts, -⟩ :=
        hwritten.exists_numeral fun hmem ↦ absurd (h 'e' hmem) (by decide)
      obtain ⟨minus, hsign⟩ := hwritten.exists_minus
      exact ⟨minus, n, hplain, hsign ▸ hparts⟩
    case isFalse hinfinite =>
      exact absurd (h 'I' (by simp; decide)) (by decide)

/-- What is shown of a number, if it has no letters, is a numeral with or without a minus. -/
theorem IsShownPlain.exists_numeral {x : Float} (h : IsShownPlain x) :
    ∃ (minus : Bool) (n : Numeral), n.IsPlain ∧ (shown x).toList = signText minus ++ n.text := by
  unfold IsShownPlain shown at h
  unfold shown
  cases hwhole : Quanta.integer? x with
  | none =>
    rw [hwhole] at h
    exact exists_numeral_of_text h
  | some i =>
    rw [hwhole] at h
    dsimp only at h ⊢
    by_cases hsmall : i.natAbs < Nat.pow 10 21
    · rw [if_pos hsmall, Json.toList_toString_int]
      refine ⟨decide (i < 0), ⟨Nat.toDigits 10 i.natAbs, none⟩, ?_, ?_⟩
      · refine ⟨fun c hc ↦ ?_, ?_⟩
        · rw [Option.getD_none, List.append_nil] at hc
          exact Text.isPlainDigit_of_mem_toDigits hc
        · obtain ⟨d, ds, hdigits, -⟩ := (Json.isWhole_toDigits i.natAbs).eq_cons
          rw [hdigits]
          exact List.cons_ne_nil _ _
      · rw [Numeral.text, List.append_nil]
        congr 1
        simp only [signText, decide_eq_true_eq]
    · rw [if_neg hsmall] at h ⊢
      exact exists_numeral_of_text h

end Number

end KeyTree
