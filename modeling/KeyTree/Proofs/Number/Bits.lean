import KeyTree.Number.Quanta
import Mathlib

/-!
# Doubles and their bits

A double is its sign and the bits of its magnitude, since there is one bit pattern for all that is
no number. Magnitudes below the bits of infinity are the finite ones, and those above it are no
numbers.
-/

open Float.Model Float.Model.UnpackedFloat

namespace KeyTree.Quanta

/-- Sign and magnitude are all there is to a double. -/
theorem toFloat_magnitudeBits (x : Float) : toFloat (isNegative x) (magnitudeBits x) = x := by
  have hlt := x.toBits.toNat_lt
  have hbit : signBit = 2 ^ 63 := rfl
  have hword : (if isNegative x then signBit + magnitudeBits x else magnitudeBits x) =
      x.toBits.toNat := by
    unfold isNegative magnitudeBits
    rw [hbit]
    split <;> simp_all [Nat.mod_eq_of_lt]
    omega
  rw [toFloat, hword, UInt64.ofNat_toNat, Float.ofBits_toBits]

/-! ## The fields of a word -/

abbrev fraction (b : BitVec 64) : BitVec 52 := @unpackMantissa Format.binary64 b

abbrev exponent (b : BitVec 64) : BitVec 11 := @unpackExponent Format.binary64 b

abbrev sign (b : BitVec 64) : BitVec 1 := @unpackSign Format.binary64 b

theorem toNat_fraction (b : BitVec 64) : (fraction b).toNat = b.toNat % 2 ^ 52 := by
  simp [unpackMantissa]

theorem toNat_exponent (b : BitVec 64) : (exponent b).toNat = b.toNat / 2 ^ 52 % 2 ^ 11 := by
  simp [unpackExponent, Nat.shiftRight_eq_div_pow]

theorem toNat_sign (b : BitVec 64) : (sign b).toNat = b.toNat / 2 ^ 63 % 2 := by
  simp [unpackSign, Nat.shiftRight_eq_div_pow]

theorem exponent_eq_top_iff (x : Float) :
    exponent x.toBits.toBitVec = -1#11 ↔ infinityBits ≤ magnitudeBits x := by
  have hlt := x.toBits.toNat_lt
  have hexponent := toNat_exponent x.toBits.toBitVec
  have hinfinity : infinityBits = 2047 * 2 ^ 52 := rfl
  have hbit : signBit = 2 ^ 63 := rfl
  rw [BitVec.toNat_eq, hexponent, hinfinity, magnitudeBits, hbit]
  change x.toBits.toNat / 2 ^ 52 % 2 ^ 11 = 2047 ↔ _
  omega

theorem fraction_eq_zero_iff (x : Float) :
    fraction x.toBits.toBitVec = 0#52 ↔ magnitudeBits x % binade = 0 := by
  have hfraction := toNat_fraction x.toBits.toBitVec
  have hbinade : binade = 2 ^ 52 := rfl
  have hbit : signBit = 2 ^ 63 := rfl
  rw [BitVec.toNat_eq, hfraction, magnitudeBits, hbinade, hbit]
  change x.toBits.toNat % 2 ^ 52 = 0 ↔ _
  omega

/-! ## Infinities and what is no number -/

theorem isFinite_iff (x : Float) : x.isFinite = true ↔ magnitudeBits x < infinityBits := by
  rw [← Nat.not_le, ← exponent_eq_top_iff]
  change (UnpackedFloat.unpack Format.binary64 x.toBits.toBitVec).isFinite = true ↔ _
  unfold UnpackedFloat.unpack
  dsimp only
  split
  case isTrue htop => split <;> simp [UnpackedFloat.isFinite, exponent, htop]
  case isFalse htop =>
    split
    case isTrue => split <;> simpa [UnpackedFloat.isFinite] using htop
    case isFalse => simpa [UnpackedFloat.isFinite] using htop

/-- There is one double that is no number. -/
theorem eq_nan_of_isNaN {x : Float} (h : x.isNaN = true) : x = 0 / 0 := by
  rw [Float.isNaN_eq_decide_eq_nan, decide_eq_true_eq] at h
  rw [h]
  rfl

theorem isNaN_of_fraction_ne_zero {x : Float} (hbits : infinityBits ≤ magnitudeBits x)
    (hfraction : magnitudeBits x % binade ≠ 0) : x.isNaN = true := by
  rw [← exponent_eq_top_iff] at hbits
  rw [ne_eq, ← fraction_eq_zero_iff] at hfraction
  rw [Float.isNaN_eq_decide_eq_nan, decide_eq_true_eq, ← Float.toBits_inj, ← UInt64.toBitVec_inj]
  exact x.toModel.valid.eq_packedNaN hbits hfraction

/-- A number that is not finite is an infinity. -/
theorem eq_infinity {x : Float} (hnan : x.isNaN = false) (hbits : infinityBits ≤ magnitudeBits x) :
    x = if isNegative x then -1 / 0 else 1 / 0 := by
  have hinfinity : infinityBits = 2047 * 2 ^ 52 := rfl
  have hbinade : binade = 2 ^ 52 := rfl
  have hlt : magnitudeBits x < 2 ^ 63 := Nat.mod_lt _ (by decide)
  have hzero : magnitudeBits x % binade = 0 := by
    by_contra hfraction
    rw [isNaN_of_fraction_ne_zero hbits hfraction] at hnan
    cases hnan
  have hmagnitude : magnitudeBits x = infinityBits := by
    rw [hbinade] at hzero
    omega
  rw [← toFloat_magnitudeBits x, hmagnitude]
  cases hsign : isNegative x
  · rfl
  · rfl

/-! ## Negation -/

/-- A word is its three fields. -/
theorem packComponents_fields (b : BitVec 64) :
    packComponents .binary64 (Sign.ofBitVec (sign b)) (exponent b) (fraction b) = b :=
  @packComponents_unpackSign_unpackExponent_unpackMantissa .binary64 b

/-- The other sign in a word is the other sign of what it stands for. -/
theorem unpack_packComponents_neg {spec : Format} (s : Sign) (e : BitVec spec.exponentBits)
    (m : BitVec spec.mantissaBitsWithoutImplicit) :
    UnpackedFloat.unpack spec (packComponents spec (-s) e m) =
      (UnpackedFloat.unpack spec (packComponents spec s e m)).neg := by
  unfold UnpackedFloat.unpack
  simp only [unpackMantissa_packComponents, unpackExponent_packComponents,
    unpackSign_packComponents, Sign.ofBitVec_toBitVec]
  split
  · split <;> rfl
  · split
    · split <;> rfl
    · rfl

theorem unpack_pack_unpack (b : BitVec 64) :
    UnpackedFloat.unpack .binary64 (UnpackedFloat.pack .binary64
      (UnpackedFloat.unpack .binary64 b)) = UnpackedFloat.unpack .binary64 b := by
  have hpack := @pack_unpack .binary64 b
  rw [hpack]
  split
  · rename_i hnan
    unfold isNaNBits at hnan
    rw [decide_eq_true_eq] at hnan
    rw [unpack_packedNaN]
    unfold UnpackedFloat.unpack
    rw [if_pos hnan.1, if_neg hnan.2]
  · rfl

theorem neg_ofBits {b c : UInt64} {s : Sign} (e : BitVec 11) (m : BitVec 52)
    (hb : packComponents .binary64 s e m = b.toBitVec)
    (hc : packComponents .binary64 (-s) e m = c.toBitVec) :
    -Float.ofBits b = Float.ofBits c := by
  have hneg := @unpack_packComponents_neg .binary64 s e m
  rw [hb, hc] at hneg
  change Float.ofModel (Float.Model.pack (UnpackedFloat.unpack .binary64 (UnpackedFloat.pack .binary64
    (UnpackedFloat.unpack .binary64 b.toBitVec))).neg) =
    Float.ofModel (Float.Model.pack (UnpackedFloat.unpack .binary64 c.toBitVec))
  rw [unpack_pack_unpack, hneg]

theorem neg_toFloat {bits : Nat} (h : bits < signBit) : -toFloat false bits = toFloat true bits := by
  have hbit : signBit = 2 ^ 63 := rfl
  rw [hbit] at h
  have hb : (UInt64.ofNat bits).toBitVec.toNat = bits := Nat.mod_eq_of_lt (by omega)
  have hc : (UInt64.ofNat (signBit + bits)).toBitVec.toNat = signBit + bits :=
    Nat.mod_eq_of_lt (by omega)
  have hfields := packComponents_fields (UInt64.ofNat bits).toBitVec
  have hfields' := packComponents_fields (UInt64.ofNat (signBit + bits)).toBitVec
  have hsign : sign (UInt64.ofNat bits).toBitVec = 0#1 := by
    rw [BitVec.toNat_eq, toNat_sign, hb]
    change bits / 2 ^ 63 % 2 = 0
    omega
  have hsign' : sign (UInt64.ofNat (signBit + bits)).toBitVec = 1#1 := by
    rw [BitVec.toNat_eq, toNat_sign, hc, hbit]
    change (2 ^ 63 + bits) / 2 ^ 63 % 2 = 1
    omega
  have hexponent : exponent (UInt64.ofNat (signBit + bits)).toBitVec =
      exponent (UInt64.ofNat bits).toBitVec := by
    rw [BitVec.toNat_eq, toNat_exponent, toNat_exponent, hb, hc, hbit]
    omega
  have hfraction : fraction (UInt64.ofNat (signBit + bits)).toBitVec =
      fraction (UInt64.ofNat bits).toBitVec := by
    rw [BitVec.toNat_eq, toNat_fraction, toNat_fraction, hb, hc, hbit]
    omega
  rw [hsign] at hfields
  rw [hsign', hexponent, hfraction] at hfields'
  exact neg_ofBits _ _ hfields hfields'

end KeyTree.Quanta
