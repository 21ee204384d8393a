import KeyTree.Proofs.Formula.Matches
import KeyTree.Proofs.Number.Magnitude

/-!
# A reference to a number

A formula that is a reference to a number alone comes to the number, if the number is shown without
an exponent. An exponent has a letter, so it keeps the text from being computed, and the formula comes
to what is shown of the number.
-/

namespace KeyTree.Formula

open Arithmetic

/-- A path that leads to a node may stand in braces. -/
theorem isBraceable_of_lookup? {root : Forest} {path : String} {n : Node}
    (h : root.lookup? path = .ok (some n)) : IsBraceable path.toList := by
  unfold Forest.lookup? at h
  split at h
  case h_1 => cases h
  case h_2 p hparse =>
    obtain ⟨hsegments, -⟩ := Path.parse_eq_ok_iff.mp hparse
    constructor
    · intro hnil
      rw [hnil] at hsegments
      have hempty : Path.isSegment [] = true := hsegments [] List.mem_cons_self
      exact absurd hempty (by decide)
    · intro c hc
      rcases @Text.eq_or_mem_of_mem '.' _ _ hc with rfl | ⟨field, hfield, hmem⟩
      · decide
      · have hsegment := hsegments field hfield
        rw [Path.isSegment, Bool.and_eq_true, List.all_eq_true] at hsegment
        have hchar := hsegment.2 c hmem
        rw [isReferenceChar, ← Path.isSegmentChar, hchar]
        rfl

/-- A formula of one reference comes to what the text of its node comes to. -/
theorem outcome_of_lookup? {root : Forest} {path : String} {n : Node}
    (h : root.lookup? path = .ok (some n)) (hn : n.isRenderable = true) :
    outcome root ("\x7b\x7b" ++ path ++ "\x7d\x7d") = .ok (settled n.rendered.toList) := by
  have hpath := isBraceable_of_lookup? h
  have htext : ("\x7b\x7b" ++ path ++ "\x7d\x7d").toList = braced path.toList := by
    rw [String.toList_append, String.toList_append]
    rfl
  have hpieces : pieces ("\x7b\x7b" ++ path ++ "\x7d\x7d").toList = [.reference path.toList] := by
    rw [htext]
    exact pieces_reference hpath.nonempty hpath.chars
  have hpiece : (Piece.reference path.toList).fill root = .ok n.rendered.toList := by
    rw [← @String.ofList_toList path] at h
    exact fill_of_isRenderable h hn
  have hfill : fill root [.reference path.toList] = .ok (n.rendered.toList ++ []) :=
    fill_cons hpiece rfl
  unfold outcome
  dsimp only
  rw [hpieces, hfill, List.append_nil]
  rfl

/-! ## Texts of numbers -/

/-- A numeral with or without a minus, as an expression. -/
def signed (minus : Bool) (n : Numeral) : Expression Numeral :=
  .sum (.product (if minus then .sign true (.primary (.atom n)) else .primary (.atom n)) []) []

theorem symbols_signed (minus : Bool) (n : Numeral) :
    (signed minus n).symbols = (if minus then [.operator .subtract] else []) ++ [.atom n] := by
  cases minus with
  | true => rfl
  | false => rfl

theorem laid_signed (minus : Bool) (n : Numeral) :
    Laid (Symbol.text Numeral.text) (signed minus n).symbols (signText minus ++ n.text) := by
  have hnone : ∀ c ∈ ([] : List Char), Text.isBlank c = true := List.forall_mem_nil _
  have hatom : Laid (Symbol.text Numeral.text) [.atom n] n.text := by
    have hlaid : Laid (Symbol.text Numeral.text) [.atom n] ([] ++ (n.text ++ [])) :=
      .cons hnone (.nil hnone)
    rwa [List.nil_append, List.append_nil] at hlaid
  cases minus with
  | true =>
    have hlaid : Laid (Symbol.text Numeral.text) [.operator .subtract, .atom n]
        ([] ++ (['-'] ++ n.text)) := .cons hnone hatom
    exact hlaid
  | false => exact hatom

theorem computed_signed (minus : Bool) (n : Numeral) :
    computed (signed minus n) = .ok (if minus then -n.toFloat else n.toFloat) := by
  cases minus with
  | true => rfl
  | false => rfl

/-- A numeral with or without a minus is computed. -/
theorem settled_signed {n : Numeral} (minus : Bool) (h : n.IsPlain) :
    settled (signText minus ++ n.text) = .number (if minus then -n.toFloat else n.toFloat) := by
  have hplain : ∀ n', .atom n' ∈ (signed minus n).symbols → n'.IsPlain := by
    intro n' hn'
    rw [symbols_signed] at hn'
    have heq : n' = n := by
      cases minus <;> simpa using hn'
    rw [heq]
    exact h
  have hremainder : .operator .remainder ∉ (signed minus n).symbols := by
    rw [symbols_signed]
    cases minus <;> simp
  have hmargin : ∀ c ∈ signText minus ++ n.text, Text.isSeparator c = false := by
    intro c hc
    apply isSeparator_eq_false
    rcases List.mem_append.mp hc with hc | hc
    · unfold signText at hc
      split at hc
      · rw [List.mem_singleton.mp hc]
        exact .inr rfl
      · cases hc
    · exact .inl (h.isNumeralChar_of_mem hc)
  rw [settled_of_laid (laid_signed minus n) hplain hremainder fun _ ↦ hmargin, computed_signed]
  rfl

/-- What is shown of a number without an exponent is computed, and comes to the number. -/
theorem settled_shown {x : Float} (hfinite : x.isFinite = true) (h : Number.IsPositional x) :
    settled (Number.shown x).toList = .number (Quanta.withoutNegativeZero x) := by
  have hbits := (Quanta.isFinite_iff x).mp hfinite
  have hshown := Number.isShownPlain_of_isPositional hbits h
  have hexponent : 'e' ∉ (Number.shown x).toList := by
    intro hmem
    exact absurd (hshown 'e' hmem) (by decide)
  obtain ⟨minus, n, hplain, htext⟩ := hshown.exists_numeral
  have hread := Number.read?_shown hbits hexponent
  rw [Number.read?_of_toList hplain htext] at hread
  rw [htext, settled_signed minus hplain, Option.some.inj hread]

/-- An exponent keeps a text from being computed. -/
theorem settled_of_e_mem {text : String} (h : 'e' ∈ text.toList) :
    settled text.toList = .text text := by
  have hchars : text.toList.all isArithmeticChar = false := by
    rw [List.all_eq_false]
    exact ⟨'e', h, by decide⟩
  rw [settled, isArithmetic, hchars, Bool.and_false, if_neg Bool.false_ne_true, String.ofList_toList]

/--
A reference to a finite number, alone in a formula, comes to a number that is equal to it, if the
number is zero, or from a ten-thousandth up to below ten to the 21st. Every other finite number is
shown with an exponent, and the formula comes to that text.
-/
theorem evaluate_number_reference {cache : Cache} (hcache : cache.IsReady) {root : Forest}
    {path : String} {n : Node} {x : Float} (hlookup : root.lookup? path = .ok (some n))
    (hpayload : n.payload = .leaf (.number x)) (hfinite : x.isFinite = true) :
    (Number.IsPositional x →
      ∃ y, (evaluate cache root ("\x7b\x7b" ++ path ++ "\x7d\x7d")).1 = .ok (.number y) ∧
        (y == x) = true) ∧
    (¬ Number.IsPositional x →
      (evaluate cache root ("\x7b\x7b" ++ path ++ "\x7d\x7d")).1 =
        .ok (.text (Number.shown x))) := by
  have hrendered : n.rendered = Number.shown x := by
    rw [Node.rendered, hpayload]
    rfl
  rw [(evaluate_spec hcache root _).1, outcome_of_lookup? hlookup (isRenderable_of_leaf hpayload),
    hrendered]
  constructor
  · intro hpositional
    rw [settled_shown hfinite hpositional]
    exact ⟨_, rfl, Quanta.withoutNegativeZero_beq hfinite⟩
  · intro hpositional
    have hbits := (Quanta.isFinite_iff x).mp hfinite
    rw [settled_of_e_mem (Number.e_mem_shown_of_not_isPositional hbits hpositional)]

theorem evaluate_number_reference_half :
    (pair.lookup? "b" = .ok (some ⟨"", "b", .leaf (.number 0.5)⟩) ∧ (0.5 : Float).isFinite = true ∧
      Number.IsPositional 0.5) ∧
    ∃ y, (evaluate (.ofCapacity defaultCapacity) pair "\x7b\x7bb\x7d\x7d").1 = .ok (.number y) ∧
      (y == 0.5) = true := by
  have hready : (Arithmetic.Cache.ofCapacity defaultCapacity).IsReady :=
    Cache.isReady_ofCapacity (by decide)
  have hlookup : pair.lookup? "b" = .ok (some ⟨"", "b", .leaf (.number 0.5)⟩) := rfl
  have hfinite : (0.5 : Float).isFinite = true := by decide
  have hpositional : Number.IsPositional 0.5 := .inr ⟨by decide +kernel, by decide +kernel⟩
  exact ⟨⟨hlookup, hfinite, hpositional⟩,
    (evaluate_number_reference hready hlookup rfl hfinite).1 hpositional⟩

/-- A tree of one number. -/
def oneNumber (x : Float) : Forest := [⟨"", "a", .leaf (.number x)⟩]

/-- Ten to the 21st is shown with an exponent, and a reference to it comes to that text. -/
theorem evaluate_ten_pow :
    (oneNumber 1e21).lookup? "a" = .ok (some ⟨"", "a", .leaf (.number 1e21)⟩) ∧
      (1e21 : Float).isFinite = true ∧
      (evaluate (.ofCapacity defaultCapacity) (oneNumber 1e21) "\x7b\x7ba\x7d\x7d").1 =
        .ok (.text "1e+21") := by
  have hready : (Arithmetic.Cache.ofCapacity defaultCapacity).IsReady :=
    Cache.isReady_ofCapacity (by decide)
  have hlookup : (oneNumber 1e21).lookup? "a" = .ok (some ⟨"", "a", .leaf (.number 1e21)⟩) := rfl
  have hshown : (⟨"", "a", .leaf (.number 1e21)⟩ : Node).rendered = "1e+21" := by decide +kernel
  have houtcome := outcome_of_lookup? hlookup (isRenderable_of_leaf rfl)
  rw [hshown, settled_of_e_mem (by decide)] at houtcome
  exact ⟨hlookup, by decide, (evaluate_spec hready _ _).1.trans houtcome⟩

end KeyTree.Formula
