import KeyTree.Number.Decimal
import Mathlib.Algebra.Group.Nat.Defs

/-!
# Rounding to the nearest double

Rounding depends on the value of a quotient and not on the way it is written, and a value that is a
double rounds to itself. So a decimal reads as the same double however its zeros are written, and
the digits that are chosen for a double read as that double.
-/

namespace KeyTree

namespace Quanta

theorem one_eq : one = 2 ^ 1074 := rfl

theorem one_pos : 0 < one := Nat.pow_pos Nat.two_pos

theorem roundedQuotient_mul (num den : Nat) {k : Nat} (hk : 0 < k) :
    roundedQuotient (num * k) (den * k) = roundedQuotient num den := by
  have hdiv : num * k / (den * k) = num / den := Nat.mul_div_mul_right num den hk
  have hmod : 2 * (num * k % (den * k)) = 2 * (num % den) * k := by
    rw [Nat.mul_mod_mul_right, Nat.mul_assoc]
  unfold roundedQuotient
  dsimp only
  rw [hdiv, hmod]
  simp only [Nat.mul_lt_mul_right hk]

theorem roundedQuotient_of_dvd (num : Nat) {den : Nat} (hden : 0 < den) :
    roundedQuotient (num * den) den = num := by
  unfold roundedQuotient
  simp [Nat.mul_div_cancel num hden, hden]

theorem div_le_roundedQuotient (num den : Nat) : num / den ≤ roundedQuotient num den := by
  unfold roundedQuotient
  dsimp only
  split
  · exact Nat.le_refl _
  · split
    · exact Nat.le_succ _
    · split
      · exact Nat.le_refl _
      · exact Nat.le_succ _

/-- A quotient may be reduced. -/
theorem nearestBits_mul (num den : Nat) {k : Nat} (hk : 0 < k) :
    nearestBits (num * k) (den * k) = nearestBits num den := by
  have hdiv : num * k / (den * k) = num / den := Nat.mul_div_mul_right num den hk
  unfold nearestBits
  dsimp only
  rw [hdiv, Nat.mul_right_comm, roundedQuotient_mul _ _ hk]

/-- Equal quotients round to the same double. -/
theorem nearestBits_congr {num den num' den' : Nat} (hden : 0 < den) (hden' : 0 < den')
    (h : num * den' = num' * den) : nearestBits num den = nearestBits num' den' := by
  rw [← nearestBits_mul num den hden', h, Nat.mul_comm den den', nearestBits_mul num' den' hden]

theorem nearestBits_zero {den : Nat} (hden : 0 < den) : nearestBits 0 den = 0 := by
  simp [nearestBits, roundedQuotient, hden]

theorem log2_mul_two_pow {m : Nat} (e : Nat) (hle : 2 ^ 52 ≤ m) (hlt : m < 2 ^ 53) :
    (m * 2 ^ e).log2 = 52 + e := by
  have hpos : m * 2 ^ e ≠ 0 :=
    Nat.mul_ne_zero (by omega) (Nat.pos_iff_ne_zero.1 (Nat.two_pow_pos e))
  rw [Nat.log2_eq_iff hpos, Nat.pow_add, Nat.add_right_comm, Nat.pow_add]
  constructor
  · exact Nat.mul_le_mul_right _ hle
  · exact Nat.mul_lt_mul_of_pos_right hlt (Nat.two_pow_pos e)

/-- A double rounds to itself. -/
theorem nearestBits_ofBits {bits : Nat} (h : bits < infinityBits) :
    nearestBits (ofBits bits) 1 = bits := by
  have hbinade : binade = 2 ^ 52 := rfl
  unfold ofBits
  split
  case isTrue hsubnormal =>
    have hlt : bits < binade := by
      rw [hbinade] at hsubnormal ⊢
      omega
    have hlog : bits.log2 - 52 = 0 := by
      rcases Nat.eq_zero_or_pos bits with rfl | hpos
      · rfl
      · have := (Nat.log2_lt (by omega)).2 (hbinade ▸ hlt)
        omega
    have hexact := roundedQuotient_of_dvd bits Nat.one_pos
    rw [Nat.mul_one] at hexact
    unfold nearestBits
    dsimp only
    rw [Nat.div_one, hlog, Nat.pow_eq, Nat.pow_zero, Nat.mul_one, Nat.zero_mul, Nat.zero_add,
      hexact]
    omega
  case isFalse hnormal =>
    obtain ⟨e, he⟩ := Nat.exists_eq_succ_of_ne_zero hnormal
    have hmod : bits % binade < binade := Nat.mod_lt _ (by decide)
    have hlog : ((binade + bits % binade) * 2 ^ e).log2 = 52 + e :=
      log2_mul_two_pow e (by omega) (by omega)
    have hexact := roundedQuotient_of_dvd (binade + bits % binade) (Nat.two_pow_pos e)
    have hsum : e * binade + (binade + bits % binade) = bits := by
      calc
        e * binade + (binade + bits % binade) = binade * (bits / binade) + bits % binade := by
          rw [he, Nat.succ_eq_add_one, Nat.mul_comm binade, Nat.succ_mul, Nat.add_assoc]
        _ = bits := Nat.div_add_mod bits binade
    unfold nearestBits
    simp only [he, Nat.succ_sub_one, Nat.pow_eq, Nat.div_one, hlog, Nat.add_sub_cancel_left,
      Nat.one_mul, hexact, hsum]
    exact Nat.min_eq_left (Nat.le_of_lt h)

/-- A quotient of this size rounds to infinity. -/
theorem nearestBits_of_large {num e : Nat} (he : 2046 ≤ e) (h : 2 ^ (52 + e) ≤ num) :
    nearestBits num 1 = infinityBits := by
  have hnum : num ≠ 0 := by
    have := Nat.two_pow_pos (52 + e)
    omega
  have hbinade : binade = 2 ^ 52 := rfl
  have hlog : 52 + e ≤ num.log2 := (Nat.le_log2 hnum).2 h
  have hfloor : binade ≤ roundedQuotient num (1 * 2 ^ (num.log2 - 52)) := by
    refine Nat.le_trans ?_ (div_le_roundedQuotient _ _)
    rw [Nat.one_mul, Nat.le_div_iff_mul_le (Nat.two_pow_pos _)]
    calc
      binade * 2 ^ (num.log2 - 52) = 2 ^ num.log2 := by
        rw [hbinade, ← Nat.pow_add, Nat.add_sub_cancel' (by omega)]
      _ ≤ num := Nat.log2_self_le hnum
  have hshift : 2046 * binade ≤ (num.log2 - 52) * binade := Nat.mul_le_mul_right _ (by omega)
  unfold nearestBits
  dsimp only
  rw [Nat.div_one, Nat.pow_eq]
  apply Nat.min_eq_right
  calc
    infinityBits = 2046 * binade + binade := rfl
    _ ≤ _ := Nat.add_le_add hshift hfloor

/-- Less than half a quantum rounds to zero. -/
theorem nearestBits_of_small {num den : Nat} (h : 2 * num < den) : nearestBits num den = 0 := by
  have hdiv : num / den = 0 := Nat.div_eq_of_lt (by omega)
  have hmod : num % den = num := Nat.mod_eq_of_lt (by omega)
  simp [nearestBits, roundedQuotient, hdiv, hmod, h]

end Quanta

namespace Decimal

/-! ## Decimals -/

/-- A decimal in quanta, as numerator and denominator. -/
def ratio (d : Decimal) : Nat × Nat :=
  if 0 ≤ d.exponent then (d.coefficient * 10 ^ d.exponent.toNat * Quanta.one, 1)
  else (d.coefficient * Quanta.one, 10 ^ (-d.exponent).toNat)

theorem ratio_den_pos (d : Decimal) : 0 < d.ratio.2 := by
  unfold ratio
  split
  · exact Nat.one_pos
  · exact Nat.pow_pos (by decide)

theorem two_pow_le_ten_pow (e : Nat) : 2 ^ (3 * e) ≤ 10 ^ e := by
  rw [Nat.pow_mul]
  exact Nat.pow_le_pow_left (by decide) e

/-- Numbers too large for a double are infinite as quotients too. -/
theorem nearestBits_ratio_of_large {d : Decimal} (hcoefficient : d.coefficient ≠ 0)
    (hexponent : 400 < d.exponent) :
    Quanta.nearestBits d.ratio.1 d.ratio.2 = Quanta.infinityBits := by
  have hpow : 2 ^ 1024 ≤ 10 ^ d.exponent.toNat := by
    calc
      2 ^ 1024 ≤ 2 ^ (3 * d.exponent.toNat) := Nat.pow_le_pow_right (by decide) (by omega)
      _ ≤ 10 ^ d.exponent.toNat := two_pow_le_ten_pow _
  have hratio : d.ratio = (d.coefficient * 10 ^ d.exponent.toNat * Quanta.one, 1) :=
    if_pos (by omega)
  rw [hratio]
  apply Quanta.nearestBits_of_large (Nat.le_refl 2046)
  calc
    2 ^ (52 + 2046) = 1 * 2 ^ 1024 * Quanta.one := by
      rw [Nat.one_mul, Quanta.one_eq, ← Nat.pow_add]
    _ ≤ d.coefficient * 10 ^ d.exponent.toNat * Quanta.one :=
      Nat.mul_le_mul_right _ (Nat.mul_le_mul (Nat.pos_of_ne_zero hcoefficient) hpow)

/-- Numbers below half a quantum are zero as quotients too. -/
theorem nearestBits_ratio_of_small {d : Decimal}
    (hsmall : (d.coefficient.log2 : Int) + 3 * d.exponent < -1076) :
    Quanta.nearestBits d.ratio.1 d.ratio.2 = 0 := by
  have hneg : ¬ 0 ≤ d.exponent := by omega
  have hratio : d.ratio = (d.coefficient * Quanta.one, 10 ^ (-d.exponent).toNat) := if_neg hneg
  rw [hratio]
  apply Quanta.nearestBits_of_small
  calc
    2 * (d.coefficient * Quanta.one) < 2 * (2 ^ (d.coefficient.log2 + 1) * Quanta.one) :=
      Nat.mul_lt_mul_of_pos_left (Nat.mul_lt_mul_of_pos_right Nat.lt_log2_self Quanta.one_pos)
        Nat.two_pos
    _ = 2 ^ (d.coefficient.log2 + 1 + 1074 + 1) := by
      rw [Quanta.one_eq, ← Nat.pow_add, Nat.mul_comm, ← Nat.pow_succ]
    _ ≤ 2 ^ (3 * (-d.exponent).toNat) := Nat.pow_le_pow_right (by decide) (by omega)
    _ ≤ 10 ^ (-d.exponent).toNat := two_pow_le_ten_pow _

/-- The bounds that spare work change nothing. -/
theorem nearestBits_eq_ratio (d : Decimal) :
    d.nearestBits = Quanta.nearestBits d.ratio.1 d.ratio.2 := by
  unfold nearestBits
  split
  case isTrue hzero =>
    have hratio : d.ratio.1 = 0 := by
      unfold ratio
      split <;> simp [hzero]
    rw [hratio, Quanta.nearestBits_zero d.ratio_den_pos]
  case isFalse hzero =>
    split
    case isTrue hlarge => exact (nearestBits_ratio_of_large hzero hlarge).symm
    case isFalse =>
      split
      case isTrue hsmall => exact (nearestBits_ratio_of_small hsmall).symm
      case isFalse =>
        unfold ratio
        split <;> rfl

/-- Zeros may stand in the coefficient or in the exponent. -/
theorem nearestBits_shift (c k : Nat) (e : Int) :
    nearestBits ⟨c * 10 ^ k, e⟩ = nearestBits ⟨c, e + k⟩ := by
  rw [nearestBits_eq_ratio, nearestBits_eq_ratio]
  apply Quanta.nearestBits_congr (ratio_den_pos _) (ratio_den_pos _)
  unfold ratio
  dsimp only
  by_cases hleft : 0 ≤ e
  · have hright : 0 ≤ e + k := by omega
    have hexponent : (e + k).toNat = k + e.toNat := by omega
    rw [if_pos hleft, if_pos hright, hexponent, Nat.pow_add, Nat.mul_assoc c]
  · rw [if_neg hleft]
    by_cases hright : 0 ≤ e + k
    · have hexponent : k = (e + k).toNat + (-e).toNat := by omega
      rw [if_pos hright]
      calc
        c * 10 ^ k * Quanta.one * 1
            = c * (10 ^ (e + k).toNat * 10 ^ (-e).toNat) * Quanta.one := by
          rw [← Nat.pow_add, ← hexponent, Nat.mul_one]
        _ = c * 10 ^ (e + k).toNat * Quanta.one * 10 ^ (-e).toNat := by
          rw [← Nat.mul_assoc, Nat.mul_right_comm]
    · have hexponent : (-e).toNat = k + (-(e + k)).toNat := by omega
      rw [if_neg hright]
      calc
        c * 10 ^ k * Quanta.one * 10 ^ (-(e + k)).toNat
            = c * Quanta.one * (10 ^ k * 10 ^ (-(e + k)).toNat) := by
          rw [Nat.mul_right_comm c, Nat.mul_assoc]
        _ = c * Quanta.one * 10 ^ (-e).toNat := by rw [← Nat.pow_add, ← hexponent]

/-- A number of quanta written out in full reads as itself. -/
theorem nearestBits_ofQuanta {bits : Nat} (h : bits < Quanta.infinityBits) :
    (ofQuanta (Quanta.ofBits bits)).nearestBits = bits := by
  have hratio : (ofQuanta (Quanta.ofBits bits)).ratio =
      (Quanta.ofBits bits * 5 ^ 1074 * Quanta.one, 10 ^ 1074) := rfl
  have hten : 10 ^ 1074 = 5 ^ 1074 * Quanta.one := by
    rw [Quanta.one_eq, ← Nat.mul_pow]
  rw [nearestBits_eq_ratio, hratio]
  calc
    Quanta.nearestBits (Quanta.ofBits bits * 5 ^ 1074 * Quanta.one) (10 ^ 1074)
        = Quanta.nearestBits (Quanta.ofBits bits) 1 := by
      apply Quanta.nearestBits_congr (Nat.pow_pos (by decide)) Nat.one_pos
      rw [hten, Nat.mul_one, Nat.mul_assoc]
    _ = bits := Quanta.nearestBits_ofBits h

theorem nearestBits_of_onGrid? {bits : Nat} {grid : Int} {d : Decimal}
    (h : onGrid? bits grid = some d) : d.nearestBits = bits := by
  unfold onGrid? at h
  dsimp only at h
  split at h
  case isTrue hbits => exact Option.some.inj h ▸ hbits
  case isFalse =>
    split at h
    case isTrue hbits => exact Option.some.inj h ▸ hbits
    case isFalse =>
      split at h
      case isTrue hbits => exact Option.some.inj h ▸ hbits
      case isFalse => cases h

/-- The digits chosen for a double read as that double. -/
theorem nearestBits_shortest {bits : Nat} (h : bits < Quanta.infinityBits) :
    (shortest bits).nearestBits = bits := by
  unfold shortest
  dsimp only
  cases hfound : (List.range 17).findSome? fun n ↦
      onGrid? bits (scale (Quanta.ofBits bits) - (n + 1 : Nat)) with
  | none => exact nearestBits_ofQuanta h
  | some d =>
    obtain ⟨n, -, hgrid⟩ := List.exists_of_findSome?_eq_some hfound
    exact nearestBits_of_onGrid? hgrid

end Decimal

end KeyTree
