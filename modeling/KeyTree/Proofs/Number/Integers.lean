import KeyTree.Proofs.Number.Bits
import KeyTree.Proofs.Number.Rounding
import KeyTree.Number.Whole

/-!
# Whole doubles

A double without a fraction is the double nearest to its value as an integer. Only the sign of a
negative zero is lost on the way.
-/

namespace KeyTree.Quanta

theorem ofFloat_eq_of_integer? {x : Float} {i : Int} (h : integer? x = some i) :
    magnitudeBits x < infinityBits ∧ i.natAbs * one = ofFloat x ∧
      (i < 0 ↔ isNegative x = true ∧ i.natAbs ≠ 0) := by
  unfold integer? at h
  split at h
  case isFalse => cases h
  case isTrue hwhole =>
    have hmul : ofFloat x / one * one = ofFloat x :=
      Nat.div_mul_cancel (Nat.dvd_of_mod_eq_zero hwhole.2)
    have hi := Option.some.inj h
    generalize ofFloat x / one = whole at hi hmul
    refine ⟨hwhole.1, ?_, ?_⟩
    · have habs : i.natAbs = whole := by
        rw [← hi]
        split <;> simp
      rw [habs, hmul]
    · rw [← hi]
      by_cases hsign : isNegative x = true
      · simp only [hsign, if_true, true_and]
        omega
      · simp only [hsign, Bool.false_eq_true, if_false, false_and, iff_false]
        omega

theorem toFloat_zero : toFloat false 0 = 0 := by decide

/-- Both zeros as the positive one, and every other double as itself. -/
def withoutNegativeZero (x : Float) : Float := if magnitudeBits x = 0 then 0 else x

/-- A whole double is read back from its value. -/
theorem ofInt?_of_integer? {x : Float} {i : Int} (h : integer? x = some i) :
    ofInt? i = some (withoutNegativeZero x) := by
  obtain ⟨hfinite, hmul, hsign⟩ := ofFloat_eq_of_integer? h
  have hbits : nearestBits (i.natAbs * one) 1 = magnitudeBits x := by
    rw [hmul]
    exact nearestBits_ofBits hfinite
  unfold ofInt? withoutNegativeZero
  dsimp only
  rw [hbits, if_pos hfinite]
  by_cases hzero : magnitudeBits x = 0
  · have habs : i.natAbs = 0 := by
      have hnone : i.natAbs * one = 0 := by
        rw [hmul, ofFloat, hzero]
        rfl
      exact (Nat.mul_eq_zero.1 hnone).resolve_right (Nat.pos_iff_ne_zero.1 one_pos)
    have hnonneg : decide (i < 0) = false := by
      rw [decide_eq_false_iff_not]
      omega
    rw [if_pos hzero, hzero, hnonneg, toFloat_zero]
  · have habs : i.natAbs ≠ 0 := by
      intro hi
      apply hzero
      rw [← hbits, hi, Nat.zero_mul, nearestBits_zero Nat.one_pos]
    have hnegative : decide (i < 0) = isNegative x := by
      rw [Bool.eq_iff_iff, decide_eq_true_iff, hsign]
      exact and_iff_left habs
    rw [if_neg hzero, hnegative, toFloat_magnitudeBits]

theorem ofBits_lt {bits : Nat} (h : bits < infinityBits) : ofBits bits < 2 ^ (53 + 2046) := by
  have hbinade : binade = 2 ^ 52 := rfl
  have hfields : bits / binade < 2047 := by
    rw [Nat.div_lt_iff_lt_mul (by decide)]
    exact h
  have hmod : bits % binade < 2 ^ 52 := Nat.mod_lt _ (by decide)
  have hpow : 2 ^ 53 ≤ 2 ^ (53 + 2046) := Nat.pow_le_pow_right Nat.two_pos (Nat.le_add_right 53 _)
  unfold ofBits
  split
  case isTrue hsubnormal =>
    have hlt : bits < 2 ^ 52 := (Nat.div_eq_zero_iff_lt (Nat.two_pow_pos 52)).1 hsubnormal
    exact Nat.lt_of_lt_of_le (Nat.lt_trans hlt (by decide)) hpow
  case isFalse =>
    have hfraction : binade + bits % binade < 2 ^ 53 := by
      rw [hbinade]
      omega
    have hscale : 2 ^ (bits / binade - 1) ≤ 2 ^ 2046 :=
      Nat.pow_le_pow_right Nat.two_pos (by omega)
    rw [Nat.pow_add]
    exact Nat.mul_lt_mul_of_lt_of_le hfraction hscale (Nat.two_pow_pos _)

/-- A whole double has few enough digits to be read. -/
theorem natAbs_lt_of_integer? {x : Float} {i : Int} (h : integer? x = some i) :
    i.natAbs < 10 ^ TooManyDigits.limit := by
  obtain ⟨hfinite, hmul, -⟩ := ofFloat_eq_of_integer? h
  have hpow : (2 : Nat) ^ (53 + 2046) ≤ 10 ^ TooManyDigits.limit :=
    calc
      2 ^ (53 + 2046) ≤ 2 ^ (3 * TooManyDigits.limit) :=
        Nat.pow_le_pow_right Nat.two_pos (by decide)
      _ ≤ 10 ^ TooManyDigits.limit := Decimal.two_pow_le_ten_pow _
  calc
    i.natAbs ≤ i.natAbs * one := Nat.le_mul_of_pos_right _ one_pos
    _ = ofFloat x := hmul
    _ < 2 ^ (53 + 2046) := ofBits_lt hfinite
    _ ≤ 10 ^ TooManyDigits.limit := hpow

end KeyTree.Quanta
