import KeyTree.Proofs.Number.Nearest
import KeyTree.Proofs.Number.Shown
import KeyTree.Proofs.Number.Whole

/-!
# Which numbers are shown without an exponent

Rounding keeps the order of numbers, so the shortest decimal of a double has its leading digit where
the double has its own. A number is written positionally if it is zero, or from a ten-thousandth up
to below ten to the 21st, and such a text is read as the number again.
-/

namespace KeyTree

/-! ## Rounding keeps the order -/

namespace Quanta

theorem roundedQuotient_mono_left {num num' : Nat} (den : Nat) (h : num ≤ num') :
    roundedQuotient num den ≤ roundedQuotient num' den := by
  rcases Nat.eq_or_lt_of_le (Nat.div_le_div_right h : num / den ≤ num' / den) with hfloor | hfloor
  · -- With the same whole part, the larger number has the larger rest.
    have hrest : num % den ≤ num' % den := by
      have hnum := Nat.div_add_mod num den
      have hnum' := Nat.div_add_mod num' den
      rw [hfloor] at hnum
      omega
    unfold roundedQuotient
    dsimp only
    rw [hfloor]
    split_ifs <;> omega
  · calc
      roundedQuotient num den ≤ num / den + 1 := roundedQuotient_le num den
      _ ≤ num' / den := hfloor
      _ ≤ roundedQuotient num' den := div_le_roundedQuotient num' den

theorem roundedQuotient_mono {num den num' den' : Nat} (hden : 0 < den) (hden' : 0 < den')
    (h : num * den' ≤ num' * den) : roundedQuotient num den ≤ roundedQuotient num' den' :=
  calc
    roundedQuotient num den = roundedQuotient (num * den') (den * den') :=
      (roundedQuotient_mul num den hden').symm
    _ ≤ roundedQuotient (num' * den) (den * den') := roundedQuotient_mono_left _ h
    _ = roundedQuotient (num' * den) (den' * den) := by rw [Nat.mul_comm den den']
    _ = roundedQuotient num' den' := roundedQuotient_mul num' den' hden

/-- Of two quotients, the one that is not larger has the whole part that is not larger. -/
theorem div_le_div_of_mul_le {num den num' den' : Nat} (hden : 0 < den) (hden' : 0 < den')
    (h : num * den' ≤ num' * den) : num / den ≤ num' / den' := by
  rw [Nat.le_div_iff_mul_le hden']
  apply Nat.le_of_mul_le_mul_right _ hden
  calc
    num / den * den' * den = num / den * den * den' := Nat.mul_right_comm _ _ _
    _ ≤ num * den' := Nat.mul_le_mul_right den' (Nat.div_mul_le_self num den)
    _ ≤ num' * den := h

/-- How far a number of quanta is shifted to the right for its significand. -/
def shift (num den : Nat) : Nat := (num / den).log2 - 52

theorem nearestBits_eq (num den : Nat) :
    nearestBits num den =
      min (shift num den * binade + roundedQuotient num (den * 2 ^ shift num den)) infinityBits :=
  rfl

/-- A significand has 53 bits at most, and may be rounded up to the next power of two. -/
theorem roundedQuotient_le_binade (num den : Nat) :
    roundedQuotient num (den * 2 ^ shift num den) ≤ 2 * binade := by
  have hbinade : 2 * binade = 2 ^ 53 := rfl
  have hlt : num / den < 2 ^ (53 + shift num den) :=
    calc
      num / den < 2 ^ ((num / den).log2 + 1) := Nat.lt_log2_self
      _ ≤ 2 ^ (53 + shift num den) := by
        apply Nat.pow_le_pow_right Nat.two_pos
        unfold shift
        omega
  have hfloor : num / (den * 2 ^ shift num den) < 2 ^ 53 := by
    rw [← Nat.div_div_eq_div_mul, Nat.div_lt_iff_lt_mul (Nat.two_pow_pos _), ← Nat.pow_add]
    exact hlt
  rw [hbinade]
  exact (roundedQuotient_le _ _).trans hfloor

/-- A significand that is shifted has 53 bits. -/
theorem binade_le_roundedQuotient {num den : Nat} (h : 0 < shift num den) :
    binade ≤ roundedQuotient num (den * 2 ^ shift num den) := by
  have hbinade : binade = 2 ^ 52 := rfl
  have hlog : (num / den).log2 = 52 + shift num den := by
    unfold shift at h ⊢
    omega
  have hsome : num / den ≠ 0 := by
    intro hzero
    rw [hzero, Nat.log2_zero] at hlog
    omega
  have hfloor : 2 ^ 52 ≤ num / (den * 2 ^ shift num den) := by
    rw [← Nat.div_div_eq_div_mul, Nat.le_div_iff_mul_le (Nat.two_pow_pos _), ← Nat.pow_add,
      ← hlog]
    exact Nat.log2_self_le hsome
  rw [hbinade]
  exact hfloor.trans (div_le_roundedQuotient _ _)

theorem shift_mono {num den num' den' : Nat} (hden : 0 < den) (hden' : 0 < den')
    (h : num * den' ≤ num' * den) : shift num den ≤ shift num' den' := by
  have hlog : (num / den).log2 ≤ (num' / den').log2 := by
    rw [Nat.log2_eq_log_two, Nat.log2_eq_log_two]
    exact Nat.log_mono_right (div_le_div_of_mul_le hden hden' h)
  exact Nat.sub_le_sub_right hlog 52

/-- A larger number of quanta is not rounded to a smaller double. -/
theorem nearestBits_mono {num den num' den' : Nat} (hden : 0 < den) (hden' : 0 < den')
    (h : num * den' ≤ num' * den) : nearestBits num den ≤ nearestBits num' den' := by
  rw [nearestBits_eq, nearestBits_eq]
  apply min_le_min_right
  rcases Nat.eq_or_lt_of_le (shift_mono hden hden' h) with hshift | hshift
  · have hscaled : num * (den' * 2 ^ shift num' den') ≤ num' * (den * 2 ^ shift num' den') := by
      rw [← Nat.mul_assoc, ← Nat.mul_assoc]
      exact Nat.mul_le_mul_right _ h
    rw [hshift]
    exact Nat.add_le_add_left (roundedQuotient_mono (Nat.mul_pos hden (Nat.two_pow_pos _))
      (Nat.mul_pos hden' (Nat.two_pow_pos _)) hscaled) _
  · -- Rounding up reaches the next power of two at most, where larger numbers start.
    calc
      shift num den * binade + roundedQuotient num (den * 2 ^ shift num den) ≤
          shift num den * binade + 2 * binade :=
        Nat.add_le_add_left (roundedQuotient_le_binade num den) _
      _ = (shift num den + 1) * binade + binade := by ring
      _ ≤ shift num' den' * binade + binade :=
        Nat.add_le_add_right (Nat.mul_le_mul_right binade hshift) _
      _ ≤ shift num' den' * binade + roundedQuotient num' (den' * 2 ^ shift num' den') :=
        Nat.add_le_add_left (binade_le_roundedQuotient (Nat.zero_lt_of_lt hshift)) _

/-- Larger bit patterns stand for larger numbers. -/
theorem le_of_ofBits_le {bits bits' : Nat} (h : bits < infinityBits) (h' : bits' < infinityBits)
    (hle : ofBits bits ≤ ofBits bits') : bits ≤ bits' := by
  rw [← nearestBits_ofBits h, ← nearestBits_ofBits h']
  exact nearestBits_mono Nat.one_pos Nat.one_pos (Nat.mul_le_mul_right 1 hle)

theorem ofBits_mono {bits bits' : Nat} (h : bits < infinityBits) (h' : bits' < infinityBits)
    (hle : bits ≤ bits') : ofBits bits ≤ ofBits bits' := by
  by_contra hlt
  have heq := Nat.le_antisymm hle (le_of_ofBits_le h' h (Nat.le_of_not_le hlt))
  rw [heq] at hlt
  exact hlt (Nat.le_refl _)

end Quanta

/-! ## The leading digit -/

namespace Decimal

theorem nearestBits_mono_coefficient {c c' : Nat} (e : Int) (h : c ≤ c') :
    nearestBits ⟨c, e⟩ ≤ nearestBits ⟨c', e⟩ := by
  rw [nearestBits_eq_ratio, nearestBits_eq_ratio]
  apply Quanta.nearestBits_mono (ratio_den_pos _) (ratio_den_pos _)
  unfold ratio
  dsimp only
  split
  · exact Nat.mul_le_mul_right _ (Nat.mul_le_mul_right _ (Nat.mul_le_mul_right _ h))
  · exact Nat.mul_le_mul_right _ (Nat.mul_le_mul_right _ h)

/-- The double nearest to a power of ten. -/
def powerBits (e : Int) : Nat := nearestBits ⟨1, e⟩

theorem powerBits_mono {e e' : Int} (h : e ≤ e') : powerBits e ≤ powerBits e' := by
  obtain ⟨k, rfl⟩ := Int.le.dest h
  unfold powerBits
  rw [← nearestBits_shift]
  exact nearestBits_mono_coefficient e (Nat.le_mul_of_pos_right 1 (Nat.pow_pos (by decide)))

/-- The exponent of the leading digit. -/
def leading (d : Decimal) : Int := ((digits d.coefficient).length : Int) - 1 + d.exponent

/-- A number has as many digits as powers of ten that it reaches. -/
theorem ten_pow_le_of_length_digits {c count : Nat} (h : c ≠ 0)
    (hcount : (digits c).length = count + 1) : 10 ^ count ≤ c ∧ c < 10 ^ (count + 1) := by
  have hiff {k : Nat} (hk : 0 < k) : (digits c).length ≤ k ↔ c < 10 ^ k :=
    Nat.length_toDigits_le_iff (by decide) hk
  refine ⟨?_, (hiff (Nat.succ_pos count)).mp hcount.le⟩
  rcases Nat.eq_zero_or_pos count with rfl | hpos
  · exact Nat.pos_of_ne_zero h
  · rw [← Nat.not_lt, ← hiff hpos, hcount]
    exact Nat.not_succ_le_self count

/-- A decimal lies between the powers of ten around its leading digit. -/
theorem powerBits_leading {d : Decimal} (h : d.coefficient ≠ 0) :
    powerBits d.leading ≤ d.nearestBits ∧ d.nearestBits ≤ powerBits (d.leading + 1) := by
  obtain ⟨c, e⟩ := d
  obtain ⟨count, hcount⟩ : ∃ count, (digits c).length = count + 1 :=
    Nat.exists_eq_succ_of_ne_zero (Nat.pos_iff_ne_zero.mp Nat.length_toDigits_pos)
  obtain ⟨hle, hlt⟩ := ten_pow_le_of_length_digits h hcount
  have hleading : leading ⟨c, e⟩ = e + count := by
    unfold leading
    rw [hcount]
    push_cast
    ring
  have hnext : leading ⟨c, e⟩ + 1 = e + (count + 1 : Nat) := by
    rw [hleading]
    push_cast
    ring
  rw [hnext, hleading, powerBits, powerBits, ← nearestBits_shift, ← nearestBits_shift, Nat.one_mul,
    Nat.one_mul]
  exact ⟨nearestBits_mono_coefficient e hle, nearestBits_mono_coefficient e hlt.le⟩

theorem coefficient_shortest_ne_zero {bits : Nat} (h : bits < Quanta.infinityBits)
    (hbits : bits ≠ 0) : (shortest bits).coefficient ≠ 0 := by
  intro hzero
  apply hbits
  rw [← nearestBits_shortest h, nearestBits, if_pos hzero]

/-! ## Thresholds -/

section

variable {bits : Nat} (hfinite : bits < Quanta.infinityBits) (hbits : bits ≠ 0)

include hfinite hbits

/-- The leading digit of the shortest decimal is where the double has its own. -/
theorem leading_shortest_spec :
    powerBits (shortest bits).leading ≤ bits ∧ bits ≤ powerBits ((shortest bits).leading + 1) := by
  have hspec := powerBits_leading (coefficient_shortest_ne_zero hfinite hbits)
  rwa [nearestBits_shortest hfinite] at hspec

theorem ten_pow_sixteen_le (h : 15 < (shortest bits).leading) :
    10 ^ 16 * Quanta.one ≤ Quanta.ofBits bits := by
  have hpower : Quanta.ofBits (powerBits 16) = 10 ^ 16 * Quanta.one := by decide +kernel
  have hle : powerBits 16 ≤ bits :=
    (powerBits_mono h).trans (leading_shortest_spec hfinite hbits).1
  rw [← hpower]
  exact Quanta.ofBits_mono (by decide +kernel) hfinite hle

theorem le_ten_pow_sixteen (h : (shortest bits).leading ≤ 15) :
    Quanta.ofBits bits ≤ 10 ^ 16 * Quanta.one := by
  have hpower : Quanta.ofBits (powerBits 16) = 10 ^ 16 * Quanta.one := by decide +kernel
  have hle : bits ≤ powerBits 16 :=
    (leading_shortest_spec hfinite hbits).2.trans (powerBits_mono (by omega))
  rw [← hpower]
  exact Quanta.ofBits_mono hfinite (by decide +kernel) hle

/-- A double is written with its leading digit in the fourth place behind the point, or further in
front, if it is a ten-thousandth at least. -/
theorem neg_four_le_leading_iff :
    -4 ≤ (shortest bits).leading ↔ Quanta.one ≤ Quanta.ofBits bits * 10 ^ 4 := by
  have hpower : powerBits (-4) < Quanta.infinityBits := by decide +kernel
  constructor
  · intro h
    have hle : powerBits (-4) ≤ bits :=
      (powerBits_mono h).trans (leading_shortest_spec hfinite hbits).1
    calc
      Quanta.one ≤ Quanta.ofBits (powerBits (-4)) * 10 ^ 4 := by decide +kernel
      _ ≤ Quanta.ofBits bits * 10 ^ 4 :=
        Nat.mul_le_mul_right _ (Quanta.ofBits_mono hpower hfinite hle)
  · intro h
    by_contra hleading
    have hle : bits ≤ powerBits (-4) :=
      (leading_shortest_spec hfinite hbits).2.trans (powerBits_mono (by omega))
    -- The double nearest to a ten-thousandth is the least one that reaches it.
    have hge : powerBits (-4) ≤ bits := by
      by_contra hlt
      have hbelow : Quanta.ofBits (powerBits (-4) - 1) * 10 ^ 4 < Quanta.one := by decide +kernel
      have hmono : Quanta.ofBits bits ≤ Quanta.ofBits (powerBits (-4) - 1) :=
        Quanta.ofBits_mono hfinite (by decide +kernel) (by omega)
      have hless := Nat.lt_of_le_of_lt (Nat.mul_le_mul_right (10 ^ 4) hmono) hbelow
      exact absurd h (Nat.not_le.mpr hless)
    have hshortest : (shortest (powerBits (-4))).leading = -4 := by decide +kernel
    rw [Nat.le_antisymm hle hge, hshortest] at hleading
    exact hleading (Int.le_refl _)

end

end Decimal

/-! ## Texts -/

namespace Layout

theorem isNumeralChar_of_mem_positional {digits : List Char} {whole : Int}
    (hdigits : ∀ c ∈ digits, Text.isPlainDigit c = true) {c : Char}
    (hc : c ∈ positional digits whole) : Numeral.isNumeralChar c = true := by
  have hdigit (hplain : Text.isPlainDigit c = true) : Numeral.isNumeralChar c = true := by
    rw [Numeral.isNumeralChar, hplain]
    rfl
  have hzeros {k : Nat} (hmem : c ∈ List.replicate k '0') : Numeral.isNumeralChar c = true :=
    hdigit (Text.isPlainDigit_of_mem_zeros hmem)
  unfold positional at hc
  split at hc
  case isTrue =>
    rcases List.mem_cons.mp hc with rfl | hc
    · rfl
    · rcases List.mem_cons.mp hc with rfl | hc
      · rfl
      · exact (List.mem_append.mp hc).elim hzeros fun hmem ↦ hdigit (hdigits c hmem)
  case isFalse =>
    rcases List.mem_append.mp hc with hc | hc
    · rcases List.mem_append.mp hc with hc | hc
      · exact hdigit (hdigits c (List.mem_of_mem_take hc))
      · exact hzeros hc
    · rcases List.mem_cons.mp hc with rfl | hc
      · rfl
      · split at hc
        case isTrue => exact hdigit (Text.isPlainDigit_of_mem_zero c hc)
        case isFalse => exact hdigit (hdigits c (List.mem_of_mem_drop hc))

theorem e_mem_exponential (width : Nat) (digits : List Char) (exponent : Int) :
    'e' ∈ exponential width digits exponent := by
  unfold exponential
  dsimp only
  split
  · exact List.mem_cons_self
  · exact List.mem_cons_of_mem _ List.mem_cons_self
  · exact List.mem_cons_of_mem _ (List.mem_cons_of_mem _
      (List.mem_append_right _ List.mem_cons_self))

/-- Where the leading digit stands decides how a decimal is set out. -/
theorem exists_decimal_eq (layout : Layout) {d : Decimal} (h : d.coefficient ≠ 0) :
    ∃ digits, (∀ c ∈ digits, Text.isPlainDigit c = true) ∧
      layout.decimal d =
        if layout.least ≤ d.leading ∧ d.leading ≤ layout.greatest then
          positional digits (d.leading + 1)
        else exponential layout.exponentWidth digits d.leading := by
  obtain ⟨first, rest, hall, hfirst⟩ := Text.toDigits_eq_cons h
  have hall : Decimal.digits d.coefficient = first :: rest := hall
  refine ⟨((Decimal.digits d.coefficient).reverse.dropWhile (· == '0')).reverse, ?_, ?_⟩
  · intro c hc
    have hmem := (List.dropWhile_suffix _).mem (List.mem_reverse.mp hc)
    exact Text.isPlainDigit_of_mem_toDigits (List.mem_reverse.mp hmem)
  · have hsome : ((Decimal.digits d.coefficient).reverse.dropWhile
        (· == '0')).reverse.isEmpty = false := by
      rw [List.isEmpty_reverse, List.isEmpty_eq_false_iff, ne_eq, List.dropWhile_eq_nil_iff, hall]
      intro hzeros
      exact hfirst (eq_of_beq (hzeros first (List.mem_reverse.mpr List.mem_cons_self)))
    unfold decimal
    dsimp only
    rw [hsome, if_neg Bool.false_ne_true]
    rfl

/-- The text of a finite number is its sign and the shortest decimal. -/
theorem toList_text {x : Float} (hfinite : Quanta.magnitudeBits x < Quanta.infinityBits) :
    (document.text x).toList =
      signText (Quanta.isNegative x) ++
        document.decimal (Decimal.shortest (Quanta.magnitudeBits x)) := by
  have hnumber : x.isNaN = false := by
    rw [← Bool.not_eq_true]
    intro hnan
    rw [Quanta.eq_nan_of_isNaN hnan] at hfinite
    exact absurd hfinite (by decide)
  rw [text, hnumber, if_neg Bool.false_ne_true]
  dsimp only
  rw [if_pos hfinite, String.toList_ofList]
  rfl

end Layout

namespace Number

open Quanta (ofFloat magnitudeBits infinityBits one)

/-- Zero, and the numbers from a ten-thousandth up to below ten to the 21st, without their sign. -/
def IsPositional (x : Float) : Prop :=
  ofFloat x = 0 ∨ one ≤ ofFloat x * 10 ^ 4 ∧ ofFloat x < 10 ^ 21 * one

section

variable {x : Float} (hfinite : magnitudeBits x < infinityBits)

theorem magnitudeBits_ne_zero (hzero : ofFloat x ≠ 0) : magnitudeBits x ≠ 0 := by
  intro hbits
  apply hzero
  rw [ofFloat, hbits]
  rfl

include hfinite

theorem isNumeralChar_or_of_mem_text (hzero : ofFloat x ≠ 0)
    (hleast : -4 ≤ (Decimal.shortest (magnitudeBits x)).leading)
    (hgreatest : (Decimal.shortest (magnitudeBits x)).leading ≤ 15) :
    ∀ c ∈ (Layout.document.text x).toList, Numeral.isNumeralChar c = true ∨ c = '-' := by
  obtain ⟨digits, hdigits, htext⟩ := Layout.document.exists_decimal_eq
    (Decimal.coefficient_shortest_ne_zero hfinite (magnitudeBits_ne_zero hzero))
  rw [Layout.toList_text hfinite, htext, if_pos ⟨hleast, hgreatest⟩]
  intro c hc
  rcases List.mem_append.mp hc with hc | hc
  · right
    unfold signText at hc
    split at hc
    · exact List.mem_singleton.mp hc
    · cases hc
  · exact .inl (Layout.isNumeralChar_of_mem_positional hdigits hc)

theorem e_mem_text (hzero : ofFloat x ≠ 0)
    (hleading : ¬ (-4 ≤ (Decimal.shortest (magnitudeBits x)).leading ∧
      (Decimal.shortest (magnitudeBits x)).leading ≤ 15)) :
    'e' ∈ (Layout.document.text x).toList := by
  obtain ⟨digits, -, htext⟩ := Layout.document.exists_decimal_eq
    (Decimal.coefficient_shortest_ne_zero hfinite (magnitudeBits_ne_zero hzero))
  have hexponential := htext.trans (if_neg hleading)
  rw [Layout.toList_text hfinite, hexponential]
  exact List.mem_append_right _ (Layout.e_mem_exponential _ _ _)

/-- A number with a fraction has fewer than 53 bits in front of the point. -/
theorem ofFloat_lt_of_integer?_none (h : Quanta.integer? x = none) :
    ofFloat x ≠ 0 ∧ ofFloat x < 10 ^ 16 * one := by
  have hrest : ofFloat x % one ≠ 0 := by
    intro hwhole
    rw [Quanta.integer?, if_pos ⟨hfinite, hwhole⟩] at h
    cases h
  refine ⟨fun hzero ↦ hrest (by rw [hzero, Nat.zero_mod]), ?_⟩
  have hsplit := Quanta.ofBits_lt_or_dvd (magnitudeBits x) 1074
  rw [← Quanta.one_eq] at hsplit
  rcases hsplit with hlt | hdvd
  · calc
      ofFloat x < Quanta.binade * one := hlt
      _ ≤ 10 ^ 16 * one := Nat.mul_le_mul_right one (by decide)
  · exact absurd (Nat.mod_eq_zero_of_dvd hdvd) hrest

/-- A number is shown without letters where it is positional, and with an exponent elsewhere. -/
theorem isShownPlain_of_isPositional (h : IsPositional x) : IsShownPlain x := by
  unfold IsShownPlain shown
  cases hwhole : Quanta.integer? x with
  | some i =>
    obtain ⟨-, hmul, -⟩ := Quanta.ofFloat_eq_of_integer? hwhole
    have hsmall : i.natAbs < 10 ^ 21 := by
      rcases h with hzero | ⟨-, hlt⟩
      · rw [hzero] at hmul
        rw [(Nat.mul_eq_zero.mp hmul).resolve_right (Nat.pos_iff_ne_zero.mp Quanta.one_pos)]
        decide
      · rw [← hmul] at hlt
        exact Nat.lt_of_mul_lt_mul_right hlt
    have hlimit : Nat.pow 10 21 = 10 ^ 21 := rfl
    dsimp only
    rw [hlimit, if_pos hsmall]
    intro c hc
    rcases Text.eq_minus_or_of_mem_toString hc with hminus | hplain
    · exact .inr hminus
    · rw [Numeral.isNumeralChar, hplain]
      exact .inl rfl
  | none =>
    obtain ⟨hzero, hlt⟩ := ofFloat_lt_of_integer?_none hfinite hwhole
    have hbits := magnitudeBits_ne_zero hzero
    apply isNumeralChar_or_of_mem_text hfinite hzero
    · exact (Decimal.neg_four_le_leading_iff hfinite hbits).mpr (h.resolve_left hzero).1
    · by_contra hgreat
      have hle := Decimal.ten_pow_sixteen_le hfinite hbits (Int.lt_of_not_ge hgreat)
      exact absurd hlt (Nat.not_lt.mpr hle)

theorem e_mem_shown_of_not_isPositional (h : ¬ IsPositional x) : 'e' ∈ (shown x).toList := by
  obtain ⟨hzero, hbounds⟩ := not_or.mp h
  have hbits := magnitudeBits_ne_zero hzero
  unfold shown
  cases hwhole : Quanta.integer? x with
  | some i =>
    obtain ⟨-, hmul, -⟩ := Quanta.ofFloat_eq_of_integer? hwhole
    have hpos : 0 < i.natAbs := by
      rw [Nat.pos_iff_ne_zero]
      intro hnone
      rw [hnone, Nat.zero_mul] at hmul
      exact hzero hmul.symm
    have hleast : one ≤ ofFloat x * 10 ^ 4 := by
      rw [← hmul, Nat.mul_right_comm]
      exact Nat.le_mul_of_pos_left one (Nat.mul_pos hpos (by decide))
    have hlarge : 10 ^ 21 * one ≤ ofFloat x := Nat.le_of_not_lt fun hlt ↦ hbounds ⟨hleast, hlt⟩
    have hgreat : ¬ i.natAbs < 10 ^ 21 := by
      rw [← hmul] at hlarge
      exact Nat.not_lt.mpr (Nat.le_of_mul_le_mul_right hlarge Quanta.one_pos)
    have hlimit : Nat.pow 10 21 = 10 ^ 21 := rfl
    dsimp only
    rw [hlimit, if_neg hgreat]
    apply e_mem_text hfinite hzero
    rintro ⟨-, hleading⟩
    have hle := Decimal.le_ten_pow_sixteen hfinite hbits hleading
    have hpowers : 10 ^ 16 * one < 10 ^ 21 * one :=
      Nat.mul_lt_mul_of_pos_right (by decide) Quanta.one_pos
    exact absurd (hlarge.trans hle) (Nat.not_le.mpr hpowers)
  | none =>
    obtain ⟨-, hlt⟩ := ofFloat_lt_of_integer?_none hfinite hwhole
    apply e_mem_text hfinite hzero
    rintro ⟨hleading, -⟩
    have hpowers : 10 ^ 16 * one ≤ 10 ^ 21 * one := Nat.mul_le_mul_right one (by decide)
    exact hbounds ⟨(Decimal.neg_four_le_leading_iff hfinite hbits).mp hleading,
      Nat.lt_of_lt_of_le hlt hpowers⟩

end

end Number

/-! ## Reading back -/

/-- The text of a decimal, if it has no exponent, is a numeral of the same double. -/
theorem Layout.Spells.exists_numeral {parts : Json.NumberParts} {text : List Char} {d : Decimal}
    (h : Spells parts text d) (hnone : 'e' ∉ text) :
    ∃ n : Numeral, n.IsPlain ∧ n.text = text ∧ n.toFloat = d.toFloat false := by
  obtain ⟨n, hplain, htext, hdecimal⟩ := h.isWritten.exists_numeral (h.text ▸ hnone)
  rw [h.text, h.sign, List.nil_append] at htext
  refine ⟨n, hplain, htext.symm, ?_⟩
  rw [Numeral.toFloat, ← hdecimal, Decimal.toFloat, Decimal.toFloat, h.nearestBits]

namespace Quanta

/-- A minus puts the sign into a double. -/
theorem ite_neg_toFloat {bits : Nat} (minus : Bool) (h : bits < infinityBits) :
    (if minus then -toFloat false bits else toFloat false bits) = toFloat minus bits := by
  have hbits : bits < signBit := Nat.lt_of_lt_of_le h (by decide)
  cases minus with
  | true => exact neg_toFloat hbits
  | false => rfl

theorem withoutNegativeZero_of_ne {x : Float} (h : magnitudeBits x ≠ 0) :
    withoutNegativeZero x = x :=
  if_neg h

/-- Zeros are equal, whatever their signs. -/
theorem withoutNegativeZero_beq {x : Float} (h : x.isFinite = true) :
    (withoutNegativeZero x == x) = true := by
  by_cases hzero : magnitudeBits x = 0
  · rw [withoutNegativeZero, if_pos hzero, ← toFloat_magnitudeBits x, hzero]
    cases isNegative x with
    | true => decide
    | false => decide
  · rw [withoutNegativeZero_of_ne hzero, Float.beq_self_iff]
    rintro rfl
    exact absurd h (by decide)

end Quanta

namespace Number

theorem toFloat_toDigits (n : Nat) :
    (⟨Nat.toDigits 10 n, none⟩ : Numeral).toFloat =
      Quanta.toFloat false (Quanta.nearestBits (n * Quanta.one) 1) := by
  have hdecimal : (⟨Nat.toDigits 10 n, none⟩ : Numeral).decimal 0 = ⟨n, 0⟩ := by
    rw [Numeral.decimal, Option.getD_none, List.append_nil, Text.digitsValue_toDigits]
    rfl
  have hratio : (⟨n, 0⟩ : Decimal).ratio = (n * Quanta.one, 1) := by
    rw [Decimal.ratio, if_pos (Int.le_refl _), Int.toNat_zero, Nat.pow_zero, Nat.mul_one]
  rw [Numeral.toFloat, hdecimal, Decimal.toFloat, Decimal.nearestBits_eq_ratio, hratio]

/-- A whole number is read back from its digits, a negative zero as zero. -/
theorem read?_toString {x : Float} {i : Int} (h : Quanta.integer? x = some i) :
    read? (toString i) = some (Quanta.withoutNegativeZero x) := by
  obtain ⟨hbits, hx⟩ := Quanta.exists_of_ofInt? (Quanta.ofInt?_of_integer? h)
  have htext : (toString i).toList =
      signText (decide (i < 0)) ++ (⟨Nat.toDigits 10 i.natAbs, none⟩ : Numeral).text := by
    rw [Json.toList_toString_int, Numeral.text, List.append_nil]
    simp only [signText, decide_eq_true_eq]
  rw [read?_of_toList (Whole.isPlain_toDigits _) htext, toFloat_toDigits,
    Quanta.ite_neg_toFloat _ hbits, hx]

section

variable {x : Float} (hfinite : Quanta.magnitudeBits x < Quanta.infinityBits)

include hfinite

/-- A number is read back from the text that it has in documents, if that has no exponent. -/
theorem read?_text (h : 'e' ∉ (Layout.document.text x).toList) :
    read? (Layout.document.text x) = some x := by
  have htext := Layout.toList_text hfinite
  obtain ⟨parts, hspells⟩ :=
    Layout.spells_decimal Layout.document (Decimal.shortest (Quanta.magnitudeBits x))
  rw [htext, List.mem_append, not_or] at h
  obtain ⟨n, hplain, hn, hvalue⟩ := hspells.exists_numeral h.2
  rw [← hn] at htext
  rw [Decimal.toFloat, Decimal.nearestBits_shortest hfinite] at hvalue
  rw [read?_of_toList hplain htext, hvalue, Quanta.ite_neg_toFloat _ hfinite,
    Quanta.toFloat_magnitudeBits]

/-- A number that is shown without letters is read back, a negative zero as zero. -/
theorem read?_shown (h : 'e' ∉ (shown x).toList) :
    read? (shown x) = some (Quanta.withoutNegativeZero x) := by
  unfold shown at h ⊢
  cases hwhole : Quanta.integer? x with
  | some i =>
    rw [hwhole] at h
    dsimp only at h ⊢
    split at h
    case isTrue hsmall =>
      rw [if_pos hsmall]
      exact read?_toString hwhole
    case isFalse hlarge =>
      obtain ⟨-, hmul, -⟩ := Quanta.ofFloat_eq_of_integer? hwhole
      have hzero : Quanta.ofFloat x ≠ 0 := by
        intro hzero
        rw [hzero] at hmul
        rw [(Nat.mul_eq_zero.mp hmul).resolve_right (Nat.pos_iff_ne_zero.mp Quanta.one_pos)]
          at hlarge
        exact hlarge (by decide)
      rw [if_neg hlarge, read?_text hfinite h,
        Quanta.withoutNegativeZero_of_ne (magnitudeBits_ne_zero hzero)]
  | none =>
    rw [hwhole] at h
    obtain ⟨hzero, -⟩ := ofFloat_lt_of_integer?_none hfinite hwhole
    rw [Quanta.withoutNegativeZero_of_ne (magnitudeBits_ne_zero hzero)]
    exact read?_text hfinite h

end

end Number

end KeyTree
