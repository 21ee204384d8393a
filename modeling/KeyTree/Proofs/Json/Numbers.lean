import KeyTree.Json.Writer
import KeyTree.Json.Lexeme
import KeyTree.Proofs.Number.Bits
import KeyTree.Proofs.Number.Digits
import KeyTree.Proofs.Number.Rounding
import Mathlib.Data.List.TakeWhile

/-!
# Numbers in documents read back

The text of a number is a sign, a whole part, a fraction and an exponent, and the scanner takes just
these parts from it, if what follows does not go on with the number. However the digits are set out,
the parts stand for the same double, so every double is read from its text.
-/

namespace KeyTree.Json

/-! ## What the scanner takes -/

/-- Characters that may go on with a number. -/
def isNumberChar (c : Char) : Bool :=
  Text.isPlainDigit c || c == '.' || c == 'e' || c == 'E'

/-- What follows a number does not go on with it. -/
def EndsNumber (rest : List Char) : Prop := ∀ c ∈ rest.head?, isNumberChar c = false

theorem EndsNumber.nil : EndsNumber [] := by
  intro c hc
  cases hc

theorem EndsNumber.cons {c : Char} (rest : List Char) (h : isNumberChar c = false) :
    EndsNumber (c :: rest) := by
  intro d hd
  obtain rfl : c = d := by simpa using hd
  exact h

theorem takeWhile_digits {digits rest : List Char}
    (hdigits : ∀ c ∈ digits, Text.isPlainDigit c = true)
    (hrest : ∀ c ∈ rest.head?, Text.isPlainDigit c = false) :
    (digits ++ rest).takeWhile Text.isPlainDigit = digits :=
  (Text.takeWhile_append_of_head hdigits hrest).1

theorem isPlainDigit_of_endsNumber {rest : List Char} (h : EndsNumber rest) :
    ∀ c ∈ rest.head?, Text.isPlainDigit c = false := by
  intro c hc
  have hchar := h c hc
  simp only [isNumberChar, Bool.or_eq_false_iff] at hchar
  exact hchar.1.1.1

/-- A whole part: a zero alone, or digits that do not start with one. -/
inductive IsWhole : List Char → Prop
  | zero : IsWhole ['0']
  | digits {d : Char} {ds : List Char} (hzero : d ≠ '0')
      (hdigits : ∀ c ∈ d :: ds, Text.isPlainDigit c = true) : IsWhole (d :: ds)

/-- A fraction: nothing, or a point and digits. -/
inductive IsFraction : List Char → Prop
  | none : IsFraction []
  | digits {ds : List Char} (hsome : ds ≠ [])
      (hdigits : ∀ c ∈ ds, Text.isPlainDigit c = true) : IsFraction ('.' :: ds)

/-- An exponent: nothing, or a mark, a sign and digits. -/
inductive IsExponent : List Char → Prop
  | none : IsExponent []
  | digits {sign : Char} {ds : List Char} (hsign : sign = '-' ∨ sign = '+') (hsome : ds ≠ [])
      (hdigits : ∀ c ∈ ds, Text.isPlainDigit c = true) : IsExponent ('e' :: sign :: ds)

theorem isFraction_zero : IsFraction ['.', '0'] :=
  .digits (List.cons_ne_nil _ _) Text.isPlainDigit_of_mem_zero

theorem isWhole_toDigits (n : Nat) : IsWhole (Nat.toDigits 10 n) := by
  by_cases hzero : n = 0
  · rw [hzero, Nat.toDigits_zero]
    exact .zero
  · obtain ⟨d, ds, hdigits, hd⟩ := Text.toDigits_eq_cons hzero
    have hplain : ∀ c ∈ d :: ds, Text.isPlainDigit c = true := by
      intro c hc
      rw [← hdigits] at hc
      exact Text.isPlainDigit_of_mem_toDigits hc
    rw [hdigits]
    exact .digits hd hplain

theorem IsWhole.eq_cons {whole : List Char} (h : IsWhole whole) :
    ∃ d ds, whole = d :: ds ∧ Text.isPlainDigit d = true := by
  cases h with
  | zero => exact ⟨'0', [], rfl, Text.isPlainDigit_zero⟩
  | digits hzero hdigits => exact ⟨_, _, rfl, hdigits _ List.mem_cons_self⟩

theorem IsWhole.isPlainDigit {whole : List Char} (h : IsWhole whole) :
    ∀ c ∈ whole, Text.isPlainDigit c = true := by
  cases h with
  | zero => exact Text.isPlainDigit_of_mem_zero
  | digits _ hdigits => exact hdigits

theorem wholePart_append {whole rest : List Char} (h : IsWhole whole)
    (hrest : ∀ c ∈ rest.head?, Text.isPlainDigit c = false) :
    wholePart (whole ++ rest) = whole := by
  cases h with
  | zero => rfl
  | digits hzero hdigits =>
    unfold wholePart
    split
    case h_1 _ heq =>
      simp only [List.cons_append, List.cons.injEq] at heq
      exact absurd heq.1 hzero
    case h_2 => exact takeWhile_digits hdigits hrest

theorem fractionPart_append {fraction rest : List Char} (h : IsFraction fraction)
    (hrest : ∀ c ∈ rest.head?, Text.isPlainDigit c = false ∧ c ≠ '.') :
    fractionPart (fraction ++ rest) = fraction := by
  have hdigit : ∀ c ∈ rest.head?, Text.isPlainDigit c = false := fun c hc ↦ (hrest c hc).1
  cases h with
  | none =>
    cases rest with
    | nil => rfl
    | cons c rest =>
      have hpoint := (hrest c rfl).2
      unfold fractionPart
      split
      case h_1 _ heq =>
        simp only [List.nil_append, List.cons.injEq] at heq
        exact absurd heq.1 hpoint
      case h_2 => rfl
  | digits hsome hdigits =>
    unfold fractionPart
    simp only [List.cons_append, takeWhile_digits hdigits hdigit]
    rw [if_neg (by simpa using hsome)]

theorem exponentPart_append {exponent rest : List Char} (h : IsExponent exponent)
    (hrest : EndsNumber rest) : exponentPart (exponent ++ rest) = exponent := by
  have hdigit := isPlainDigit_of_endsNumber hrest
  cases h with
  | none =>
    cases rest with
    | nil => rfl
    | cons c rest =>
      have hchar := hrest c rfl
      simp only [isNumberChar, Bool.or_eq_false_iff] at hchar
      simp [exponentPart, hchar.1.2, hchar.2]
  | @digits sign ds hsign hsome hdigits =>
    have hfilter : ([sign].filter fun c ↦ c == '+' || c == '-') = [sign] := by
      rcases hsign with rfl | rfl <;> rfl
    have htake : (ds ++ rest).takeWhile Text.isPlainDigit = ds := takeWhile_digits hdigits hdigit
    unfold exponentPart
    simp [hfilter, htake, hsome]

namespace NumberParts

/-- Parts that make up the text of a number. -/
structure IsWritten (n : NumberParts) : Prop where
  sign : n.sign = [] ∨ n.sign = ['-']
  whole : IsWhole n.whole
  fraction : IsFraction n.fraction
  exponent : IsExponent n.exponent

theorem head?_exponent {n : NumberParts} (h : n.IsWritten) {rest : List Char}
    (hrest : EndsNumber rest) :
    ∀ c ∈ (n.exponent ++ rest).head?, Text.isPlainDigit c = false ∧ c ≠ '.' := by
  intro c hc
  cases hexponent : n.exponent with
  | nil =>
    rw [hexponent] at hc
    have hchar := hrest c hc
    simp only [isNumberChar, Bool.or_eq_false_iff] at hchar
    exact ⟨hchar.1.1.1, by simpa using hchar.1.1.2⟩
  | cons mark tail =>
    have hmark := h.exponent
    rw [hexponent] at hc hmark
    obtain rfl : mark = c := by simpa using hc
    cases hmark
    decide

theorem head?_fraction {n : NumberParts} (h : n.IsWritten) {rest : List Char}
    (hrest : EndsNumber rest) :
    ∀ c ∈ (n.fraction ++ (n.exponent ++ rest)).head?, Text.isPlainDigit c = false := by
  intro c hc
  cases hfraction : n.fraction with
  | nil =>
    rw [hfraction] at hc
    exact (head?_exponent h hrest c hc).1
  | cons point tail =>
    have hpoint := h.fraction
    rw [hfraction] at hc hpoint
    obtain rfl : point = c := by simpa using hc
    cases hpoint
    decide

/-- The text of a number is taken apart as it was put together. -/
theorem scanNumber?_text {n : NumberParts} (h : n.IsWritten) {rest : List Char}
    (hrest : EndsNumber rest) : scanNumber? (n.text ++ rest) = some n := by
  have hwhole : wholePart (n.whole ++ (n.fraction ++ (n.exponent ++ rest))) = n.whole :=
    wholePart_append h.whole (head?_fraction h hrest)
  have hfraction : fractionPart (n.fraction ++ (n.exponent ++ rest)) = n.fraction :=
    fractionPart_append h.fraction (head?_exponent h hrest)
  have hexponent : exponentPart (n.exponent ++ rest) = n.exponent :=
    exponentPart_append h.exponent hrest
  obtain ⟨d, ds, hd, hdigit⟩ := h.whole.eq_cons
  have hsign : ((n.text ++ rest).take 1).filter (· == '-') = n.sign := by
    rcases h.sign with hnone | hminus
    · have hne : (d == '-') = false := by
        rw [beq_eq_false_iff_ne]
        rintro rfl
        exact absurd hdigit (by decide)
      simp [text, hnone, hd, hne]
    · simp [text, hminus]
  have hdrop : (n.text ++ rest).drop n.sign.length =
      n.whole ++ (n.fraction ++ (n.exponent ++ rest)) := by
    simp [text, List.append_assoc]
  have hempty : n.whole.isEmpty = false := by rw [hd]; rfl
  unfold scanNumber?
  dsimp only
  rw [hsign, hdrop, hwhole, List.drop_left, hfraction, List.drop_left, hexponent, hempty]
  rfl

/-- No name starts like a number. -/
theorem find?_names_text {n : NumberParts} (h : n.IsWritten) (rest : List Char) :
    (names.find? fun name ↦ name.1.isPrefixOf (n.text ++ rest)) = none := by
  obtain ⟨d, ds, hd, hdigit⟩ := h.whole.eq_cons
  have hne {c : Char} (hc : Text.isPlainDigit c = false) : (c == d) = false := by
    rw [beq_eq_false_iff_ne]
    rintro rfl
    rw [hc] at hdigit
    cases hdigit
  have hn := @hne 'n' (by decide)
  have ht := @hne 't' (by decide)
  have hf := @hne 'f' (by decide)
  have hN := @hne 'N' (by decide)
  have hI := @hne 'I' (by decide)
  have hminus := @hne '-' (by decide)
  rcases h.sign with hsign | hsign <;>
    simp [names, text, hsign, hd, List.isPrefixOf, hn, ht, hf, hN, hI, hminus]

theorem scanScalar?_text {n : NumberParts} (h : n.IsWritten) {rest : List Char}
    (hrest : EndsNumber rest) : scanScalar? (n.text ++ rest) = some (n.lexeme, n.text.length) := by
  unfold scanScalar?
  rw [find?_names_text h, scanNumber?_text h hrest]
  rfl

/-! ## What the parts stand for -/

/-- Whether the parts are those of a number that need not be whole. -/
def IsFractional (n : NumberParts) : Prop := n.fraction ≠ [] ∨ n.exponent ≠ []

/-- The magnitude that the parts of such a number stand for. -/
def decimal (n : NumberParts) : Decimal :=
  (Numeral.mk n.whole (some (n.fraction.drop 1))).decimal (Number.scanExponent n.exponent).1

theorem lexeme_of_isFractional {n : NumberParts} (h : n.IsFractional) :
    n.lexeme = .scalar (.number (n.decimal.toFloat (!n.sign.isEmpty))) := by
  have hparts : (n.fraction.isEmpty && n.exponent.isEmpty) = false := by
    rcases h with hfraction | hexponent
    · simp [hfraction]
    · simp [hexponent]
  unfold lexeme
  simp only [hparts]
  rfl

theorem lexeme_toDigits {sign : List Char} {n : Nat}
    (hlength : (Nat.toDigits 10 n).length ≤ TooManyDigits.limit) :
    (NumberParts.mk sign (Nat.toDigits 10 n) [] []).lexeme =
      .scalar (.integer (if !sign.isEmpty then -(n : Int) else n)) := by
  have hread : Whole.read (Nat.toDigits 10 n) = .ok n := by
    unfold Whole.read
    rw [if_neg (by omega), Text.digitsValue_toDigits]
  unfold lexeme
  simp only [List.isEmpty_nil, Bool.and_self, if_true, hread]

/-- Digits around a point, as parts. -/
theorem decimal_point (sign whole behind : List Char) :
    (NumberParts.mk sign whole ('.' :: behind) []).decimal =
      ⟨Text.digitsValue (whole ++ behind), -behind.length⟩ := by
  simp [decimal, Numeral.decimal, Number.scanExponent]

end NumberParts

end KeyTree.Json

namespace KeyTree.Layout

open Json

/-! ## How digits are set out -/

/--
Parts of a text that have the same magnitude as a decimal, and that are not read as a whole number.
-/
structure Spells (n : NumberParts) (text : List Char) (d : Decimal) : Prop where
  isWritten : n.IsWritten
  sign : n.sign = []
  isFractional : n.IsFractional
  text : n.text = text
  nearestBits : n.decimal.nearestBits = d.nearestBits

section

variable {d : Char} {ds : List Char} (hdigits : ∀ c ∈ d :: ds, Text.isPlainDigit c = true)

include hdigits

/-- The point stands in front of all digits. -/
theorem spells_behind (zeros : Nat) :
    ∃ n, Spells n ('0' :: '.' :: (List.replicate zeros '0' ++ d :: ds))
      ⟨Text.digitsValue (d :: ds), -(zeros : Int) - (d :: ds).length⟩ := by
  have hbehind : ∀ c ∈ List.replicate zeros '0' ++ d :: ds, Text.isPlainDigit c = true := by
    intro c hc
    rcases List.mem_append.1 hc with hc | hc
    · exact Text.isPlainDigit_of_mem_zeros hc
    · exact hdigits c hc
  refine ⟨⟨[], ['0'], '.' :: (List.replicate zeros '0' ++ d :: ds), []⟩, ?_, rfl, ?_, ?_, ?_⟩
  · exact ⟨.inl rfl, .zero, .digits (by simp) hbehind, .none⟩
  · exact .inl (List.cons_ne_nil _ _)
  · simp [NumberParts.text]
  · rw [NumberParts.decimal_point, List.singleton_append, Text.digitsValue_cons_zero,
      Text.digitsValue_zeros_append, List.length_append, List.length_replicate]
    congr 2
    push_cast
    omega

variable (hzero : d ≠ '0')

include hzero

/-- The point stands between two digits. -/
theorem spells_between {places : Nat} (hpos : 0 < places) (hlt : places < (d :: ds).length) :
    ∃ n, Spells n ((d :: ds).take places ++ '.' :: (d :: ds).drop places)
      ⟨Text.digitsValue (d :: ds), (places : Int) - (d :: ds).length⟩ := by
  obtain ⟨front, rfl⟩ := Nat.exists_eq_succ_of_ne_zero (Nat.pos_iff_ne_zero.1 hpos)
  have hfront : ∀ c ∈ d :: ds.take front, Text.isPlainDigit c = true := by
    intro c hc
    apply hdigits c
    rcases List.mem_cons.1 hc with rfl | hc
    · exact List.mem_cons_self
    · exact List.mem_cons_of_mem _ (List.mem_of_mem_take hc)
  have hback : ∀ c ∈ ds.drop front, Text.isPlainDigit c = true :=
    fun c hc ↦ hdigits c (List.mem_cons_of_mem _ (List.mem_of_mem_drop hc))
  have hsome : ds.drop front ≠ [] := by
    intro hnil
    have := List.drop_eq_nil_iff.1 hnil
    simp only [List.length_cons] at hlt
    omega
  refine ⟨⟨[], d :: ds.take front, '.' :: ds.drop front, []⟩, ?_, rfl, ?_, ?_, ?_⟩
  · exact ⟨.inl rfl, .digits hzero hfront, .digits hsome hback, .none⟩
  · exact .inl (List.cons_ne_nil _ _)
  · simp [NumberParts.text]
  · rw [NumberParts.decimal_point, List.cons_append, List.take_append_drop, List.length_drop]
    congr 2
    simp only [List.length_cons] at hlt ⊢
    omega

/-- The point stands behind all digits, with zeros in front of it. -/
theorem spells_front (zeros : Nat) :
    ∃ n, Spells n (d :: ds ++ List.replicate zeros '0' ++ ['.', '0'])
      ⟨Text.digitsValue (d :: ds), zeros⟩ := by
  have hfront : ∀ c ∈ d :: (ds ++ List.replicate zeros '0'), Text.isPlainDigit c = true := by
    intro c hc
    rw [← List.cons_append] at hc
    rcases List.mem_append.1 hc with hc | hc
    · exact hdigits c hc
    · exact Text.isPlainDigit_of_mem_zeros hc
  have hvalue : Text.digitsValue (d :: ds ++ List.replicate zeros '0' ++ ['0']) =
      Text.digitsValue (d :: ds) * 10 ^ (zeros + 1) := by
    rw [List.append_assoc, ← List.replicate_succ', Text.digitsValue_append_zeros]
  refine ⟨⟨[], d :: (ds ++ List.replicate zeros '0'), ['.', '0'], []⟩, ?_, rfl, ?_, ?_, ?_⟩
  · exact ⟨.inl rfl, .digits hzero hfront, isFraction_zero, .none⟩
  · exact .inl (List.cons_ne_nil _ _)
  · simp [NumberParts.text]
  · rw [NumberParts.decimal_point, ← List.cons_append, hvalue, Decimal.nearestBits_shift]
    congr 2
    simp only [List.length_singleton]
    omega

theorem spells_positional (whole : Int) :
    ∃ n, Spells n (positional (d :: ds) whole)
      ⟨Text.digitsValue (d :: ds), whole - (d :: ds).length⟩ := by
  unfold positional
  split
  case isTrue hwhole =>
    obtain ⟨n, hn⟩ := spells_behind hdigits (-whole).toNat
    have hexponent : -((-whole).toNat : Int) = whole := by omega
    rw [hexponent] at hn
    exact ⟨n, hn⟩
  case isFalse hwhole =>
    obtain ⟨places, rfl⟩ := Int.eq_ofNat_of_zero_le (by omega : 0 ≤ whole)
    rw [Int.toNat_natCast]
    by_cases hlt : places < (d :: ds).length
    · have hback : (d :: ds).drop places ≠ [] := by
        rw [ne_eq, List.drop_eq_nil_iff]
        omega
      have hfront : ((d :: ds).take places).length = places := by
        rw [List.length_take]
        omega
      simpa [hback, hfront] using spells_between hdigits hzero (by omega) hlt
    · have hback : (d :: ds).drop places = [] := List.drop_eq_nil_iff.2 (by omega)
      have hfront : (d :: ds).take places = d :: ds := List.take_of_length_le (by omega)
      have hexponent : ((places - (d :: ds).length : Nat) : Int) = places - (d :: ds).length := by
        omega
      rw [← hexponent]
      simpa [hback, hfront] using spells_front hdigits hzero (places - (d :: ds).length)

end

theorem scanExponent_padded (width : Nat) (e : Int) :
    Number.scanExponent ('e' :: (if e < 0 then '-' else '+') ::
      padded width (Decimal.digits e.natAbs)) = (e, []) := by
  have hplain : ∀ c ∈ padded width (Decimal.digits e.natAbs), Text.isPlainDigit c = true := by
    intro c hc
    rcases List.mem_append.1 hc with hc | hc
    · exact Text.isPlainDigit_of_mem_zeros hc
    · exact Text.isPlainDigit_of_mem_toDigits hc
  have hdigit : ∀ c ∈ padded width (Decimal.digits e.natAbs), Text.isDigit c = true :=
    fun c hc ↦ Text.isDigit_of_isPlainDigit (hplain c hc)
  have hsome : padded width (Decimal.digits e.natAbs) ≠ [] := by
    intro hnil
    have := (List.append_eq_nil_iff.1 hnil).2
    exact Nat.toDigits_ne_nil this
  have htake : (padded width (Decimal.digits e.natAbs)).takeWhile Text.isDigit = _ :=
    List.takeWhile_eq_self_iff.2 hdigit
  have hdrop : (padded width (Decimal.digits e.natAbs)).dropWhile Text.isDigit = [] :=
    List.dropWhile_eq_nil_iff.2 hdigit
  have hvalue : Text.digitsValue (padded width (Decimal.digits e.natAbs)) = e.natAbs :=
    Text.digitsValue_padded width e.natAbs
  unfold Number.scanExponent
  by_cases hneg : e < 0
  · have hsize : -(e.natAbs : Int) = e := by omega
    simp only [hneg, if_true, Number.scanSign, htake, hdrop, hvalue,
      List.isEmpty_eq_false_iff.2 hsome, Bool.false_eq_true, if_false, true_or, hsize]
  · have hsize : (e.natAbs : Int) = e := by omega
    simp only [hneg, if_false, Number.scanSign, htake, hdrop, hvalue,
      List.isEmpty_eq_false_iff.2 hsome, Bool.false_eq_true, if_true, true_or, hsize]

theorem spells_exponential {d : Char} {ds : List Char}
    (hdigits : ∀ c ∈ d :: ds, Text.isPlainDigit c = true) (hzero : d ≠ '0') (width : Nat)
    (e : Int) :
    ∃ n, Spells n (exponential width (d :: ds) e)
      ⟨Text.digitsValue (d :: ds), e - ds.length⟩ := by
  have hplain : ∀ c ∈ padded width (Decimal.digits e.natAbs), Text.isPlainDigit c = true := by
    intro c hc
    rcases List.mem_append.1 hc with hc | hc
    · exact Text.isPlainDigit_of_mem_zeros hc
    · exact Text.isPlainDigit_of_mem_toDigits hc
  have hsome : padded width (Decimal.digits e.natAbs) ≠ [] :=
    List.append_ne_nil_of_right_ne_nil _ Nat.toDigits_ne_nil
  have hsign : (if e < 0 then '-' else '+') = '-' ∨ (if e < 0 then '-' else '+') = '+' := by
    split
    · exact .inl rfl
    · exact .inr rfl
  have hexponent := IsExponent.digits hsign hsome hplain
  have hleading : ∀ c ∈ [d], Text.isPlainDigit c = true := by
    intro c hc
    rw [List.mem_singleton.1 hc]
    exact hdigits d List.mem_cons_self
  cases ds with
  | nil =>
    refine ⟨⟨[], [d], [], _⟩, ⟨.inl rfl, .digits hzero hleading, .none, hexponent⟩, rfl, ?_, ?_, ?_⟩
    · exact .inr (List.cons_ne_nil _ _)
    · rfl
    · simp [NumberParts.decimal, Numeral.decimal, scanExponent_padded]
  | cons c ds =>
    have hbehind : ∀ b ∈ c :: ds, Text.isPlainDigit b = true :=
      fun b hb ↦ hdigits b (List.mem_cons_of_mem d hb)
    have hfraction := IsFraction.digits (List.cons_ne_nil c ds) hbehind
    refine ⟨⟨[], [d], '.' :: c :: ds, _⟩,
      ⟨.inl rfl, .digits hzero hleading, hfraction, hexponent⟩, rfl, ?_, ?_, ?_⟩
    · exact .inl (List.cons_ne_nil _ _)
    · simp [NumberParts.text, exponential]
    · simp [NumberParts.decimal, Numeral.decimal, scanExponent_padded]

/-- The digits of a number are those it needs and zeros behind them. -/
theorem exists_trimmed (digits : List Char) :
    ∃ k, digits =
      (digits.reverse.dropWhile (· == '0')).reverse ++ List.replicate k '0' := by
  refine ⟨(digits.reverse.takeWhile (· == '0')).length, ?_⟩
  have hzeros : digits.reverse.takeWhile (· == '0') =
      List.replicate (digits.reverse.takeWhile (· == '0')).length '0' := by
    rw [List.eq_replicate_iff]
    refine ⟨rfl, ?_⟩
    intro c hc
    simpa using List.all_eq_true.1 List.all_takeWhile c hc
  have hsplit := congrArg List.reverse
    (List.takeWhile_append_dropWhile (p := (· == '0')) (l := digits.reverse))
  rw [List.reverse_append, List.reverse_reverse] at hsplit
  calc
    digits = _ := hsplit.symm
    _ = _ := by rw [hzeros, List.reverse_replicate, List.length_replicate]

theorem spells_zero (e : Int) : ∃ n, Spells n ['0', '.', '0'] ⟨0, e⟩ := by
  have hvalue : Text.digitsValue ['0', '0'] = 0 := by decide
  have hbits (e : Int) : Decimal.nearestBits ⟨0, e⟩ = 0 := by simp [Decimal.nearestBits]
  refine ⟨⟨[], ['0'], ['.', '0'], []⟩, ⟨.inl rfl, .zero, isFraction_zero, .none⟩, rfl,
    .inl (List.cons_ne_nil _ _), rfl, ?_⟩
  rw [NumberParts.decimal_point, List.singleton_append, hvalue, hbits, hbits]

/-- The text of a decimal has its magnitude. -/
theorem spells_decimal (layout : Layout) (m : Decimal) : ∃ n, Spells n (layout.decimal m) m := by
  obtain ⟨coefficient, exponent⟩ := m
  by_cases hcoefficient : coefficient = 0
  · subst hcoefficient
    have htext : layout.decimal ⟨0, exponent⟩ = ['0', '.', '0'] := by
      simp [decimal, Decimal.digits]
    rw [htext]
    exact spells_zero exponent
  obtain ⟨k, hall⟩ := exists_trimmed (Decimal.digits coefficient)
  unfold decimal
  dsimp only
  generalize ((Decimal.digits coefficient).reverse.dropWhile (· == '0')).reverse = trimmed at *
  have hvalue : coefficient = Text.digitsValue trimmed * 10 ^ k := by
    rw [← Text.digitsValue_append_zeros, ← hall]
    exact (Text.digitsValue_toDigits _).symm
  cases trimmed with
  | nil =>
    have hnil : Text.digitsValue [] = 0 := rfl
    rw [hnil, Nat.zero_mul] at hvalue
    exact absurd hvalue hcoefficient
  | cons d ds =>
    have hlength : ((Decimal.digits coefficient).length : Int) = ds.length + 1 + k := by
      rw [hall, List.length_append, List.length_replicate, List.length_cons]
      push_cast
      rfl
    have hdigits : ∀ c ∈ d :: ds, Text.isPlainDigit c = true := by
      intro c hc
      apply Text.isPlainDigit_of_mem_toDigits (n := coefficient)
      rw [← Decimal.digits, hall]
      exact List.mem_append_left _ hc
    have hzero : d ≠ '0' := by
      obtain ⟨c, cs, hcs, hc⟩ := Text.toDigits_eq_cons hcoefficient
      rw [← Decimal.digits, hall, List.cons_append, List.cons.injEq] at hcs
      rw [hcs.1]
      exact hc
    have hbits : Decimal.nearestBits ⟨coefficient, exponent⟩ =
        Decimal.nearestBits ⟨Text.digitsValue (d :: ds), exponent + k⟩ := by
      rw [hvalue, Decimal.nearestBits_shift]
    rw [List.isEmpty_cons, if_neg Bool.false_ne_true, hlength]
    split
    case isTrue =>
      obtain ⟨n, hn⟩ := spells_positional hdigits hzero (ds.length + 1 + k - 1 + exponent + 1)
      refine ⟨n, { hn with nearestBits := ?_ }⟩
      rw [hn.nearestBits, hbits]
      congr 2
      simp only [List.length_cons]
      omega
    case isFalse =>
      obtain ⟨n, hn⟩ := spells_exponential hdigits hzero layout.exponentWidth
        (ds.length + 1 + k - 1 + exponent)
      refine ⟨n, { hn with nearestBits := ?_ }⟩
      rw [hn.nearestBits, hbits]
      congr 2
      omega

end KeyTree.Layout

namespace KeyTree.Json

/-! ## Doubles and whole numbers -/

theorem scanScalar?_nan (rest : List Char) :
    scanScalar? ("NaN".toList ++ rest) = some (.scalar (.number (0 / 0)), 3) := rfl

theorem scanScalar?_infinity (rest : List Char) :
    scanScalar? ("Infinity".toList ++ rest) = some (.scalar (.number (1 / 0)), 8) := rfl

theorem scanScalar?_negInfinity (rest : List Char) :
    scanScalar? ("-Infinity".toList ++ rest) = some (.scalar (.number (-1 / 0)), 9) := rfl

/-- The text of a finite double, as parts that stand for it. -/
theorem exists_parts_of_finite {x : Float} (h : Quanta.magnitudeBits x < Quanta.infinityBits)
    (layout : Layout) :
    ∃ n : NumberParts, n.IsWritten ∧
      n.text = (if Quanta.isNegative x then ['-'] else []) ++
        layout.decimal (Decimal.shortest (Quanta.magnitudeBits x)) ∧
      n.lexeme = .scalar (.number x) := by
  obtain ⟨n, hn⟩ := Layout.spells_decimal layout (Decimal.shortest (Quanta.magnitudeBits x))
  have hbits : n.decimal.nearestBits = Quanta.magnitudeBits x :=
    hn.nearestBits.trans (Decimal.nearestBits_shortest h)
  obtain ⟨sign, hsign⟩ : ∃ sign, sign = if Quanta.isNegative x then ['-'] else [] := ⟨_, rfl⟩
  have hwritten : sign = [] ∨ sign = ['-'] := by
    rw [hsign]
    split
    · exact .inr rfl
    · exact .inl rfl
  have hnegative : (!sign.isEmpty) = Quanta.isNegative x := by
    rw [hsign]
    cases Quanta.isNegative x <;> rfl
  refine ⟨{ n with sign := sign }, { hn.isWritten with sign := hwritten }, ?_, ?_⟩
  · rw [← hsign, ← hn.text]
    simp [NumberParts.text, hn.sign]
  · have hfloat : n.decimal.toFloat (!sign.isEmpty) = x := by
      rw [Decimal.toFloat, hbits, hnegative, Quanta.toFloat_magnitudeBits]
    let signed : NumberParts := { n with sign := sign }
    have hlexeme : signed.lexeme =
        .scalar (.number (signed.decimal.toFloat (!sign.isEmpty))) :=
      NumberParts.lexeme_of_isFractional hn.isFractional
    have hdecimal : signed.decimal = n.decimal := rfl
    rw [hdecimal, hfloat] at hlexeme
    exact hlexeme

/-- Every double is read from its text. -/
theorem scanScalar?_number (x : Float) {rest : List Char} (hrest : EndsNumber rest) :
    scanScalar? ((Layout.document.text x).toList ++ rest) =
      some (.scalar (.number x), (Layout.document.text x).toList.length) := by
  unfold Layout.text
  split
  case isTrue hnan =>
    rw [Quanta.eq_nan_of_isNaN hnan]
    exact scanScalar?_nan rest
  case isFalse hnan =>
    dsimp only
    split
    case isTrue hfinite =>
      obtain ⟨n, hwritten, htext, hlexeme⟩ := exists_parts_of_finite hfinite Layout.document
      rw [String.toList_ofList, ← htext, NumberParts.scanScalar?_text hwritten hrest, hlexeme]
    case isFalse hinfinite =>
      have hx := Quanta.eq_infinity (Bool.eq_false_iff.2 hnan) (Nat.le_of_not_lt hinfinite)
      by_cases hsign : Quanta.isNegative x = true
      · rw [if_pos hsign] at hx ⊢
        rw [hx]
        exact scanScalar?_negInfinity rest
      · rw [if_neg hsign] at hx ⊢
        rw [hx]
        exact scanScalar?_infinity rest

theorem toList_toString_int (i : Int) :
    (toString i).toList = (if i < 0 then ['-'] else []) ++ Nat.toDigits 10 i.natAbs := by
  rw [Int.toString_eq_repr, Int.repr_eq_if]
  by_cases hneg : i < 0
  · have hmagnitude : (-i).toNat = i.natAbs := by omega
    rw [if_neg (by omega), if_pos hneg, String.toList_append, Nat.toList_repr, hmagnitude]
    rfl
  · have hmagnitude : i.toNat = i.natAbs := by omega
    rw [if_pos (by omega), if_neg hneg, Nat.toList_repr, hmagnitude]
    rfl

/-- A whole number is read from its digits, if they are not too many. -/
theorem scanScalar?_integer {i : Int} (hi : i.natAbs < 10 ^ TooManyDigits.limit) {rest : List Char}
    (hrest : EndsNumber rest) :
    scanScalar? ((toString i).toList ++ rest) =
      some (.scalar (.integer i), (toString i).toList.length) := by
  have hlength : (Nat.toDigits 10 i.natAbs).length ≤ TooManyDigits.limit :=
    (Nat.length_toDigits_le_iff (by decide) (by decide)).2 hi
  have hwritten (sign : List Char) (hsign : sign = [] ∨ sign = ['-']) :
      (NumberParts.mk sign (Nat.toDigits 10 i.natAbs) [] []).IsWritten :=
    ⟨hsign, isWhole_toDigits _, .none, .none⟩
  have htext (sign : List Char) :
      (NumberParts.mk sign (Nat.toDigits 10 i.natAbs) [] []).text =
        sign ++ Nat.toDigits 10 i.natAbs := by
    simp [NumberParts.text]
  rw [toList_toString_int]
  by_cases hneg : i < 0
  · have hscan := NumberParts.scanScalar?_text (hwritten ['-'] (.inr rfl)) hrest
    have hvalue : -(i.natAbs : Int) = i := by omega
    rw [htext, NumberParts.lexeme_toDigits hlength, if_pos (by rfl), hvalue] at hscan
    rw [if_pos hneg, hscan]
  · have hscan := NumberParts.scanScalar?_text (hwritten [] (.inl rfl)) hrest
    have hvalue : (i.natAbs : Int) = i := by omega
    rw [htext, NumberParts.lexeme_toDigits hlength, if_neg (by simp), hvalue] at hscan
    rw [if_neg hneg, hscan]

end KeyTree.Json
