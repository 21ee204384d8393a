import KeyTree.Proofs.Number.Integers

/-!
# The double nearest to an integer

No finite double is nearer to an integer than the one that the integer becomes, and of two that are
equally near it is the one whose last bit is zero. An integer becomes no double if and only if its
magnitude is at least half a quantum of the largest exponent above the largest finite double.
-/

open Float.Model Float.Model.UnpackedFloat

namespace KeyTree.Quanta

/-! ## Rounded quotients -/

theorem roundedQuotient_le (num den : Nat) : roundedQuotient num den ≤ num / den + 1 := by
  unfold roundedQuotient
  dsimp only
  split
  · exact Nat.le_succ _
  · split
    · exact Nat.le_refl _
    · split
      · exact Nat.le_succ _
      · exact Nat.le_refl _

/-- How the rest of a division decides where the quotient is rounded to. -/
theorem roundedQuotient_spec (num den : Nat) :
    (2 * (num % den) ≤ den ∧ roundedQuotient num den = num / den) ∨
      (den ≤ 2 * (num % den) ∧ roundedQuotient num den = num / den + 1) := by
  unfold roundedQuotient
  dsimp only
  split
  · exact .inl ⟨by omega, rfl⟩
  · split
    · exact .inr ⟨by omega, rfl⟩
    · split
      · exact .inl ⟨by omega, rfl⟩
      · exact .inr ⟨by omega, rfl⟩

/-- A half is rounded to the even quotient. -/
theorem even_roundedQuotient_of_half {num den : Nat} (h : 2 * (num % den) = den) :
    roundedQuotient num den % 2 = 0 := by
  unfold roundedQuotient
  dsimp only
  rw [h, if_neg (Nat.lt_irrefl den), if_neg (Nat.lt_irrefl den)]
  split
  case isTrue heven => exact heven
  case isFalse hodd => omega

/-- A multiple of the denominator is at most as near as that of the rounded quotient, and only a half
has another one that is as near. -/
theorem roundedQuotient_nearest (num : Nat) {den : Nat} (hden : 0 < den) (k : Int) :
    (roundedQuotient num den * den - num : Int).natAbs ≤ (k * den - num : Int).natAbs ∧
      (k ≠ roundedQuotient num den →
        (k * den - num : Int).natAbs = (roundedQuotient num den * den - num : Int).natAbs →
          2 * (num % den) = den) := by
  have hnum : (num : Int) = (num / den : Nat) * den + (num % den : Nat) := by
    exact_mod_cast (Nat.div_add_mod' num den).symm
  have hrest : num % den < den := Nat.mod_lt num hden
  have hspec := roundedQuotient_spec num den
  generalize roundedQuotient num den = rounded at *
  generalize num % den = rest at *
  generalize num / den = floor at *
  rw [hnum]
  rcases lt_trichotomy k floor with hk | rfl | hk
  · have hmul : (k + 1) * den ≤ floor * (den : Int) :=
      Int.mul_le_mul_of_nonneg_right hk (Int.natCast_nonneg den)
    rw [Int.add_mul] at hmul
    rcases hspec with ⟨hhalf, rfl⟩ | ⟨hhalf, rfl⟩
    · omega
    · rw [Int.natCast_add, Int.add_mul]
      omega
  · rcases hspec with ⟨hhalf, rfl⟩ | ⟨hhalf, rfl⟩
    · omega
    · rw [Int.natCast_add, Int.add_mul]
      omega
  · have hmul : (floor + 1) * (den : Int) ≤ k * den :=
      Int.mul_le_mul_of_nonneg_right hk (Int.natCast_nonneg den)
    rw [Int.add_mul] at hmul
    rcases hspec with ⟨hhalf, rfl⟩ | ⟨hhalf, rfl⟩
    · omega
    · rw [Int.natCast_add, Int.add_mul]
      refine ⟨by omega, ?_⟩
      intro hne
      have hnext : (floor + 1 + 1) * (den : Int) ≤ k * den :=
        Int.mul_le_mul_of_nonneg_right (by omega) (Int.natCast_nonneg den)
      rw [Int.add_mul, Int.add_mul] at hnext
      omega

/-! ## Values of bit patterns -/

/-- A significand of full length stands above its exponent, also if it is a power of two that belongs
to the next one. -/
theorem ofBits_add {shift significand : Nat} (hle : binade ≤ significand)
    (hlt : significand ≤ 2 * binade) :
    ofBits (shift * binade + significand) = significand * 2 ^ shift := by
  have hpos : 0 < binade := Nat.two_pow_pos 52
  rcases Nat.lt_or_eq_of_le hlt with hlt | rfl
  · obtain ⟨fraction, rfl⟩ := Nat.exists_eq_add_of_le hle
    have hfraction : fraction < binade := by omega
    have hsum : shift * binade + (binade + fraction) = fraction + (shift + 1) * binade := by
      rw [Nat.add_mul]
      omega
    have hdiv : (shift * binade + (binade + fraction)) / binade = shift + 1 := by
      rw [hsum, Nat.add_mul_div_right _ _ hpos, Nat.div_eq_of_lt hfraction, Nat.zero_add]
    have hmod : (shift * binade + (binade + fraction)) % binade = fraction := by
      rw [hsum, Nat.add_mul_mod_self_right, Nat.mod_eq_of_lt hfraction]
    rw [ofBits, hdiv, hmod, if_neg (Nat.succ_ne_zero shift), Nat.succ_sub_one, Nat.pow_eq]
  · have hsum : shift * binade + 2 * binade = (shift + 2) * binade := (Nat.add_mul _ _ _).symm
    have hdiv : (shift * binade + 2 * binade) / binade = shift + 2 := by
      rw [hsum, Nat.mul_div_cancel _ hpos]
    have hmod : (shift * binade + 2 * binade) % binade = 0 := by
      rw [hsum, Nat.mul_mod_left]
    have hexponent : shift + 2 - 1 = shift + 1 := rfl
    rw [ofBits, hdiv, hmod, if_neg (Nat.succ_ne_zero _), hexponent, Nat.add_zero, Nat.pow_eq,
      Nat.pow_succ, ← Nat.mul_assoc, Nat.mul_right_comm, Nat.mul_comm binade 2]

/-- The doubles from a power of two on are multiples of one of its fractions. -/
theorem ofBits_lt_or_dvd (bits shift : Nat) :
    ofBits bits < binade * 2 ^ shift ∨ 2 ^ shift ∣ ofBits bits := by
  have hmod : bits % binade < binade := Nat.mod_lt _ (Nat.two_pow_pos 52)
  unfold ofBits
  split
  case isTrue hsubnormal =>
    have hlt : bits < binade := (Nat.div_eq_zero_iff_lt (Nat.two_pow_pos 52)).1 hsubnormal
    exact .inl (hlt.trans_le (Nat.le_mul_of_pos_right _ (Nat.two_pow_pos shift)))
  case isFalse =>
    rw [Nat.pow_eq]
    by_cases hshift : shift ≤ bits / binade - 1
    · exact .inr (Dvd.dvd.mul_left (pow_dvd_pow 2 hshift) _)
    · obtain ⟨more, hmore⟩ := Nat.exists_eq_add_of_lt (Nat.not_le.1 hshift)
      left
      calc
        (binade + bits % binade) * 2 ^ (bits / binade - 1)
            < 2 * binade * 2 ^ (bits / binade - 1) :=
          Nat.mul_lt_mul_of_pos_right (by omega) (Nat.two_pow_pos _)
        _ = binade * 2 ^ (bits / binade - 1 + 1) := by
          rw [Nat.pow_succ, Nat.mul_comm 2, Nat.mul_assoc, Nat.mul_comm 2]
        _ ≤ binade * 2 ^ shift :=
          Nat.mul_le_mul_left _ (Nat.pow_le_pow_right Nat.two_pos (by omega))

/-- How a number of full length is rounded. -/
theorem nearestBits_spec {num : Nat} (h : binade ≤ num) :
    ∃ shift, binade * 2 ^ shift ≤ num ∧ num < 2 * binade * 2 ^ shift ∧
      binade ≤ roundedQuotient num (2 ^ shift) ∧ roundedQuotient num (2 ^ shift) ≤ 2 * binade ∧
      nearestBits num 1 =
        min (shift * binade + roundedQuotient num (2 ^ shift)) infinityBits := by
  have hbinade : binade = 2 ^ 52 := rfl
  have hnum : num ≠ 0 := by
    have := Nat.two_pow_pos 52
    omega
  have hlog : 52 ≤ num.log2 := (Nat.le_log2 hnum).2 (hbinade ▸ h)
  obtain ⟨shift, hshift⟩ := Nat.exists_eq_add_of_le hlog
  have hle : binade * 2 ^ shift ≤ num := by
    rw [hbinade, ← Nat.pow_add, ← hshift]
    exact Nat.log2_self_le hnum
  have hlt : num < 2 * binade * 2 ^ shift := by
    rw [hbinade, ← Nat.pow_succ', ← Nat.pow_add, Nat.succ_add, ← hshift]
    exact Nat.lt_log2_self
  refine ⟨shift, hle, hlt, ?_, ?_, ?_⟩
  · exact ((Nat.le_div_iff_mul_le (Nat.two_pow_pos shift)).2 hle).trans
      (div_le_roundedQuotient _ _)
  · exact (roundedQuotient_le _ _).trans
      ((Nat.div_lt_iff_lt_mul (Nat.two_pow_pos shift)).2 hlt)
  · unfold nearestBits
    dsimp only
    rw [Nat.div_one, hshift, Nat.add_sub_cancel_left, Nat.pow_eq, Nat.one_mul]

/-! ## Values of doubles -/

theorem toBits_ofBits {word : UInt64} (h : exponent word.toBitVec ≠ -1#11) :
    (Float.ofBits word).toBits = word := by
  have hpack := @pack_unpack .binary64 word.toBitVec (by decide)
  have hnumber : ¬ @isNaNBits .binary64 word.toBitVec = true := by
    unfold isNaNBits
    rw [decide_eq_true_eq]
    exact fun hnan ↦ h hnan.1
  rw [if_neg hnumber] at hpack
  rw [← UInt64.toBitVec_inj]
  exact hpack

/-- A finite magnitude and a sign are found again in the double. -/
theorem toFloat_spec (negative : Bool) {bits : Nat} (h : bits < infinityBits) :
    magnitudeBits (toFloat negative bits) = bits ∧
      isNegative (toFloat negative bits) = negative := by
  have hinfinity : infinityBits = 2047 * 2 ^ 52 := rfl
  have hbit : signBit = 2 ^ 63 := rfl
  rw [hinfinity] at h
  unfold toFloat
  have hlt : (if negative then signBit + bits else bits) < 2 ^ 64 := by
    split <;> omega
  have hword : (UInt64.ofNat (if negative then signBit + bits else bits)).toNat =
      if negative then signBit + bits else bits := Nat.mod_eq_of_lt hlt
  have hexponent : exponent
      (UInt64.ofNat (if negative then signBit + bits else bits)).toBitVec ≠ -1#11 := by
    rw [ne_eq, BitVec.toNat_eq, toNat_exponent, UInt64.toNat_toBitVec, hword, hbit]
    change ¬ _ = 2047
    split <;> omega
  rw [magnitudeBits, isNegative, toBits_ofBits hexponent, hword, hbit]
  cases negative
  · simp only [Bool.false_eq_true, if_false]
    exact ⟨by omega, decide_eq_false (by omega)⟩
  · simp only [if_true]
    exact ⟨by omega, decide_eq_true (by omega)⟩

/-- The value of a finite double in quanta. -/
def value (x : Float) : Int := if isNegative x then -(ofFloat x) else ofFloat x

theorem value_toFloat (negative : Bool) {bits : Nat} (h : bits < infinityBits) :
    value (toFloat negative bits) = if negative then -(ofBits bits : Int) else ofBits bits := by
  obtain ⟨hmagnitude, hsign⟩ := toFloat_spec negative h
  rw [value, ofFloat, hmagnitude, hsign]

/-- How far a finite double is from an integer, in quanta. -/
def distance (x : Float) (i : Int) : Nat := (value x - i * one).natAbs

/--
A double is nearest to an integer if no finite double is nearer, and if its last bit is zero where
another value is as near.
-/
structure IsNearest (x : Float) (i : Int) : Prop where
  isFinite : x.isFinite = true
  le : ∀ y : Float, y.isFinite = true → distance x i ≤ distance y i
  even : ∀ y : Float, y.isFinite = true → value y ≠ value x → distance y i = distance x i →
    magnitudeBits x % 2 = 0

/-! ## Nearest doubles -/

theorem natAbs_value (x : Float) : (value x).natAbs = ofFloat x := by
  unfold value
  split
  · rw [Int.natAbs_neg, Int.natAbs_natCast]
  · rw [Int.natAbs_natCast]

theorem lt_or_eq_mul_of_natAbs {v : Int} {bits : Nat} (shift : Nat) (h : v.natAbs = ofBits bits) :
    v < binade * (2 ^ shift : Nat) ∨ ∃ k : Int, v = k * (2 ^ shift : Nat) := by
  rcases ofBits_lt_or_dvd bits shift with hlt | hdvd
  · left
    have hcast : ((binade * 2 ^ shift : Nat) : Int) = binade * (2 ^ shift : Nat) := Nat.cast_mul _ _
    rw [← hcast]
    omega
  · right
    obtain ⟨k, hk⟩ := Int.natCast_dvd.2 (h ▸ hdvd)
    exact ⟨k, hk.trans (Int.mul_comm _ k)⟩

/-- A number of quanta is rounded to the nearest finite double if it is rounded to a finite one. -/
theorem nearestBits_nearest {num bits : Nat} {v : Int} (hnum : binade ≤ num)
    (hfinite : nearestBits num 1 < infinityBits) (hv : v.natAbs = ofBits bits) :
    (ofBits (nearestBits num 1) - num : Int).natAbs ≤ (v - num).natAbs ∧
      (v ≠ ofBits (nearestBits num 1) →
        (v - num).natAbs = (ofBits (nearestBits num 1) - num : Int).natAbs →
          nearestBits num 1 % 2 = 0) := by
  obtain ⟨shift, hle, -, hfloor, hceil, hround⟩ := nearestBits_spec hnum
  rw [hround] at hfinite ⊢
  rw [Nat.min_eq_left (by omega), ofBits_add hfloor hceil, Nat.cast_mul]
  rcases lt_or_eq_mul_of_natAbs shift hv with hbelow | ⟨k, rfl⟩
  · -- Below its power of two there is no double that is as near as the power itself.
    have hpower := (roundedQuotient_nearest num (Nat.two_pow_pos shift) binade).1
    have hcast : ((binade * 2 ^ shift : Nat) : Int) = binade * (2 ^ shift : Nat) := Nat.cast_mul _ _
    rw [← hcast] at hbelow hpower
    omega
  · obtain ⟨hnearest, htie⟩ := roundedQuotient_nearest num (Nat.two_pow_pos shift) k
    refine ⟨hnearest, ?_⟩
    intro hne heq
    have hk : k ≠ roundedQuotient num (2 ^ shift) := by
      rintro rfl
      exact hne rfl
    have heven := even_roundedQuotient_of_half (htie hk heq)
    have hbinade : binade = 2 * 2 ^ 51 := rfl
    rw [hbinade, Nat.mul_left_comm]
    omega

theorem binade_le_one : binade ≤ one := by
  have hbinade : binade = 2 ^ 52 := rfl
  rw [hbinade, one_eq]
  exact pow_le_pow_right₀ one_le_two (by decide)

theorem exists_of_ofInt? {i : Int} {x : Float} (h : ofInt? i = some x) :
    nearestBits (i.natAbs * one) 1 < infinityBits ∧
      x = toFloat (decide (i < 0)) (nearestBits (i.natAbs * one) 1) := by
  unfold ofInt? at h
  dsimp only at h
  split at h
  case isTrue hfinite => exact ⟨hfinite, (Option.some.inj h).symm⟩
  case isFalse => cases h

theorem isNearest_zero : IsNearest (toFloat false 0) 0 := by
  have hpos : 0 < infinityBits := Nat.mul_pos (by decide) (Nat.two_pow_pos 52)
  have hvalue : value (toFloat false 0) = 0 := value_toFloat false hpos
  have hdistance : distance (toFloat false 0) 0 = 0 := by
    rw [distance, hvalue, Int.zero_mul]
    rfl
  constructor
  · rw [isFinite_iff, (toFloat_spec false hpos).1]
    exact hpos
  · intro y _
    rw [hdistance]
    exact Nat.zero_le _
  · intro y _ hne heq
    rw [hdistance, distance, Int.zero_mul, Int.sub_zero, Int.natAbs_eq_zero] at heq
    exact absurd (heq.trans hvalue.symm) hne

/-- The value seen from the side of zero on which the integer lies. -/
def valueToward (i : Int) (x : Float) : Int := if i < 0 then -value x else value x

theorem distance_eq_valueToward (x : Float) (i : Int) :
    distance x i = (valueToward i x - (i.natAbs * one : Nat)).natAbs := by
  unfold distance valueToward
  split
  case isTrue hneg =>
    obtain ⟨n, rfl⟩ := Int.exists_eq_neg_ofNat hneg.le
    rw [Int.natAbs_neg, Int.natAbs_natCast, Int.neg_mul, Nat.cast_mul]
    omega
  case isFalse hnonneg =>
    obtain ⟨n, rfl⟩ := Int.eq_ofNat_of_zero_le (Int.not_lt.1 hnonneg)
    rw [Int.natAbs_natCast, Nat.cast_mul]

theorem natAbs_valueToward (i : Int) (x : Float) :
    (valueToward i x).natAbs = ofBits (magnitudeBits x) := by
  unfold valueToward
  split
  · rw [Int.natAbs_neg, natAbs_value, ofFloat]
  · rw [natAbs_value, ofFloat]

theorem valueToward_toFloat (i : Int) {bits : Nat} (h : bits < infinityBits) :
    valueToward i (toFloat (decide (i < 0)) bits) = ofBits bits := by
  unfold valueToward
  rw [value_toFloat _ h]
  split
  case isTrue hneg => rw [decide_eq_true hneg, if_pos rfl, Int.neg_neg]
  case isFalse hnonneg => rw [decide_eq_false hnonneg, if_neg Bool.false_ne_true]

theorem valueToward_injective {i : Int} {x y : Float} (h : valueToward i x = valueToward i y) :
    value x = value y := by
  unfold valueToward at h
  split at h
  · exact Int.neg_inj.1 h
  · exact h

/-- The double that an integer becomes is nearest to it. -/
theorem isNearest_of_ofInt? {i : Int} {x : Float} (h : ofInt? i = some x) : IsNearest x i := by
  obtain ⟨hfinite, rfl⟩ := exists_of_ofInt? h
  rcases eq_or_ne i 0 with rfl | hi
  · have hbits : nearestBits ((0 : Int).natAbs * one) 1 = 0 := by
      rw [Int.natAbs_zero, Nat.zero_mul, nearestBits_zero Nat.one_pos]
    rw [hbits]
    exact isNearest_zero
  · have hnum : binade ≤ i.natAbs * one :=
      binade_le_one.trans (Nat.le_mul_of_pos_left _ (Int.natAbs_pos.2 hi))
    have hmagnitude := (toFloat_spec (decide (i < 0)) hfinite).1
    have hvalue := valueToward_toFloat i hfinite
    constructor
    · rw [isFinite_iff, hmagnitude]
      exact hfinite
    · intro y _
      rw [distance_eq_valueToward, distance_eq_valueToward, hvalue]
      exact (nearestBits_nearest hnum hfinite (natAbs_valueToward i y)).1
    · intro y _ hne heq
      rw [distance_eq_valueToward, distance_eq_valueToward, hvalue] at heq
      rw [hmagnitude]
      refine (nearestBits_nearest hnum hfinite (natAbs_valueToward i y)).2 ?_ heq
      exact fun hsame ↦ hne (valueToward_injective (hsame.trans hvalue.symm))

/-! ## Whole values -/

theorem value_of_integer? {x : Float} {i : Int} (h : integer? x = some i) :
    x.isFinite = true ∧ value x = i * one := by
  obtain ⟨hfinite, hmul, hsign⟩ := ofFloat_eq_of_integer? h
  refine ⟨(isFinite_iff x).2 hfinite, ?_⟩
  rw [value, ← hmul, Nat.cast_mul]
  split
  case isTrue hnegative =>
    have habs : i = -(i.natAbs : Int) := by
      simp only [hnegative, true_and] at hsign
      omega
    rw [← Int.neg_mul, ← habs]
  case isFalse hpositive =>
    have habs : i = (i.natAbs : Int) := by
      have hnonneg : ¬ i < 0 := fun hi ↦ hpositive (hsign.1 hi).1
      omega
    rw [← habs]

theorem value_ne_of_integer?_none {x : Float} (hfinite : x.isFinite = true)
    (h : integer? x = none) (i : Int) : value x ≠ i * one := by
  intro hvalue
  have hwhole : ofFloat x % one = 0 := by
    rw [← natAbs_value, hvalue, Int.natAbs_mul, Int.natAbs_natCast, Nat.mul_mod_left]
  rw [integer?, if_pos ⟨(isFinite_iff x).1 hfinite, hwhole⟩] at h
  cases h

/-- Whole numbers are rounded to whole numbers: exactly, or to a multiple of more than one. -/
theorem one_dvd_ofBits_nearestBits {n : Nat} (hfinite : nearestBits (n * one) 1 < infinityBits) :
    one ∣ ofBits (nearestBits (n * one) 1) := by
  rcases Nat.eq_zero_or_pos n with rfl | hn
  · rw [Nat.zero_mul, nearestBits_zero Nat.one_pos]
    exact Nat.dvd_zero one
  · obtain ⟨shift, -, -, hfloor, hceil, hround⟩ :=
      nearestBits_spec (binade_le_one.trans (Nat.le_mul_of_pos_left one hn))
    rw [hround] at hfinite ⊢
    rw [Nat.min_eq_left (by omega), ofBits_add hfloor hceil]
    rcases Nat.le_total shift 1074 with hshift | hshift
    · obtain ⟨more, hmore⟩ := Nat.exists_eq_add_of_le hshift
      have hone : one = 2 ^ more * 2 ^ shift := by
        rw [one_eq, ← pow_add, Nat.add_comm more, ← hmore]
      have hexact : roundedQuotient (n * one) (2 ^ shift) = n * 2 ^ more := by
        rw [hone, ← Nat.mul_assoc, roundedQuotient_of_dvd _ (Nat.two_pow_pos shift)]
      rw [hexact, Nat.mul_assoc, ← hone]
      exact Nat.dvd_mul_left one n
    · have hone : one ∣ 2 ^ shift := by
        rw [one_eq]
        exact pow_dvd_pow 2 hshift
      exact Dvd.dvd.mul_left hone _

/-- The double that an integer becomes is whole. -/
theorem exists_integer?_of_ofInt? {i : Int} {x : Float} (h : ofInt? i = some x) :
    ∃ j, integer? x = some j := by
  obtain ⟨hfinite, rfl⟩ := exists_of_ofInt? h
  have hmagnitude := (toFloat_spec (decide (i < 0)) hfinite).1
  have hdvd := one_dvd_ofBits_nearestBits hfinite
  unfold integer?
  rw [ofFloat, hmagnitude, if_pos ⟨hfinite, Nat.mod_eq_zero_of_dvd hdvd⟩]
  exact ⟨_, rfl⟩

/-! ## The range of doubles -/

/-- An integer whose magnitude is as much as half a quantum of the largest exponent above the largest
finite double. -/
def OutOfRange (i : Int) : Prop := 2 ^ 1024 - 2 ^ 970 ≤ i.natAbs

theorem infinityBits_le_iff {num shift : Nat} (hle : binade ≤ roundedQuotient num (2 ^ shift))
    (hlt : roundedQuotient num (2 ^ shift) ≤ 2 * binade) :
    infinityBits ≤ shift * binade + roundedQuotient num (2 ^ shift) ↔
      2045 < shift ∨ shift = 2045 ∧ roundedQuotient num (2 ^ shift) = 2 * binade := by
  have hinfinity : infinityBits = 2047 * binade := rfl
  have hpos : 0 < binade := Nat.two_pow_pos 52
  rw [hinfinity]
  rcases Nat.lt_trichotomy shift 2045 with hshift | rfl | hshift
  · have hmul : shift * binade ≤ 2044 * binade := Nat.mul_le_mul_right _ (by omega)
    omega
  · omega
  · have hmul : 2046 * binade ≤ shift * binade := Nat.mul_le_mul_right _ (by omega)
    omega

/-- An odd quotient is exceeded from the half on. -/
theorem lt_roundedQuotient_iff {num den k : Nat} (hden : 0 < den) (hodd : k % 2 = 1) :
    k < roundedQuotient num den ↔ (2 * k + 1) * den ≤ 2 * num := by
  have hnum : num = num / den * den + num % den := (Nat.div_add_mod' num den).symm
  have hrest : num % den < den := Nat.mod_lt num hden
  have hspec := roundedQuotient_spec num den
  have heven := @even_roundedQuotient_of_half num den
  generalize roundedQuotient num den = rounded at *
  generalize num % den = rest at *
  generalize num / den = floor at *
  rw [hnum, Nat.add_mul, Nat.mul_assoc, Nat.one_mul]
  rcases Nat.lt_trichotomy floor k with hk | rfl | hk
  · have hmul : (floor + 1) * den ≤ k * den := Nat.mul_le_mul_right den hk
    rw [Nat.add_mul] at hmul
    omega
  · omega
  · have hmul : (k + 1) * den ≤ floor * den := Nat.mul_le_mul_right den hk
    rw [Nat.add_mul] at hmul
    omega

/-- An integer becomes no double if and only if it is out of range. -/
theorem ofInt?_eq_none_iff (i : Int) : ofInt? i = none ↔ OutOfRange i := by
  have hnone : ofInt? i = none ↔ infinityBits ≤ nearestBits (i.natAbs * one) 1 := by
    unfold ofInt?
    dsimp only
    rw [← Nat.not_lt]
    split
    case isTrue hlt => exact iff_of_false (nomatch ·) (not_not.2 hlt)
    case isFalse hlt => exact iff_of_true rfl hlt
  have hone : (2 : Nat) ^ 2044 = 2 ^ 970 * one := by rw [one_eq, ← Nat.pow_add]
  have htop : (2 : Nat) ^ 1024 = 2 ^ 54 * 2 ^ 970 := by rw [← Nat.pow_add]
  unfold OutOfRange
  rw [hnone, htop]
  generalize i.natAbs = n at *
  generalize (2 : Nat) ^ 970 = unit at *
  rcases Nat.eq_zero_or_pos n with rfl | hn
  · rw [Nat.zero_mul, nearestBits_zero Nat.one_pos]
    exact iff_of_false (Nat.not_le.2 (Nat.mul_pos (by decide) (Nat.two_pow_pos 52))) (by omega)
  · obtain ⟨shift, hle, hlt, hfloor, hceil, hround⟩ :=
      nearestBits_spec (binade_le_one.trans (Nat.le_mul_of_pos_left one hn))
    have hbinade : binade = 2 ^ 52 := rfl
    rw [hround, Nat.le_min, and_iff_left (Nat.le_refl _), infinityBits_le_iff hfloor hceil]
    rcases Nat.lt_trichotomy shift 2045 with hshift | rfl | hshift
    · have hlow : n * one < 2 ^ 53 * unit * one := by
        calc
          n * one < 2 * binade * 2 ^ shift := hlt
          _ ≤ 2 * binade * 2 ^ 2044 :=
            Nat.mul_le_mul_left _ (pow_le_pow_right₀ one_le_two (by omega))
          _ = 2 ^ 53 * unit * one := by rw [hone, hbinade, ← Nat.pow_succ', Nat.mul_assoc]
      have hn := Nat.lt_of_mul_lt_mul_right hlow
      omega
    · have hscale : 2 ^ 2045 = 2 * unit * one := by
        rw [Nat.mul_assoc, ← hone, ← pow_succ']
      have hhalf : 2 * binade - 1 < roundedQuotient (n * one) (2 ^ 2045) ↔
          (2 ^ 54 - 1) * (2 * unit) * one ≤ 2 * n * one := by
        rw [lt_roundedQuotient_iff (by positivity) (by decide), hscale, ← Nat.mul_assoc,
          ← Nat.mul_assoc 2 n]
        rfl
      rw [Nat.mul_le_mul_right_iff one_pos] at hhalf
      omega
    · have hscale : 2 ^ 2046 = 4 * (unit * one) := by
        rw [pow_succ', pow_succ', hone, ← Nat.mul_assoc]
      have hhigh : 2 ^ 54 * unit * one ≤ n * one := by
        calc
          2 ^ 54 * unit * one = binade * 2 ^ 2046 := by
            rw [hscale, hbinade, ← Nat.mul_assoc, ← Nat.pow_add 2 52 2, Nat.mul_assoc]
          _ ≤ binade * 2 ^ shift :=
            Nat.mul_le_mul_left _ (pow_le_pow_right₀ one_le_two (by omega))
          _ ≤ n * one := hle
      have hn := Nat.le_of_mul_le_mul_right hhigh one_pos
      omega

end KeyTree.Quanta
