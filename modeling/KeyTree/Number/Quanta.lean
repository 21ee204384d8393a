/-!
# Doubles as whole numbers of quanta

One quantum is two to the power -1074, the least positive double. Every finite double is a sign and
a natural number of quanta, so rounding, remainders and comparisons with decimals are arithmetic on
`Nat`. Rounding goes to the nearest double and a tie to the even neighbour.
-/

namespace KeyTree.Quanta

/-- How many quanta make one. -/
def one : Nat := Nat.pow 2 1074

/-- How many bit patterns share an exponent. -/
def binade : Nat := Nat.pow 2 52

/-- The bit pattern of positive infinity. -/
def infinityBits : Nat := 2047 * binade

/-- The bit pattern of the sign alone. -/
def signBit : Nat := Nat.pow 2 63

/-- The bits of a double below its sign. -/
def magnitudeBits (x : Float) : Nat := x.toBits.toNat % signBit

/-- The sign bit, which zeros and infinities carry too. -/
def isNegative (x : Float) : Bool := decide (signBit ≤ x.toBits.toNat)

/-- How many quanta a finite magnitude's bit pattern stands for. -/
def ofBits (bits : Nat) : Nat :=
  if bits / binade = 0 then bits else (binade + bits % binade) * Nat.pow 2 (bits / binade - 1)

/-- The magnitude of a finite double in quanta. -/
def ofFloat (x : Float) : Nat := ofBits (magnitudeBits x)

/-- The quotient rounded to the nearest whole number, a half to the even one. -/
def roundedQuotient (num den : Nat) : Nat :=
  let floor := num / den
  let rest := 2 * (num % den)
  if rest < den then floor
  else if den < rest then floor + 1
  else if floor % 2 = 0 then floor else floor + 1

/--
The bit pattern of the double nearest to `num / den` quanta. The exponent field and the fraction are
added, so a significand that rounds up to a power of two carries into the exponent by itself.
-/
def nearestBits (num den : Nat) : Nat :=
  let shift := (num / den).log2 - 52
  min (shift * binade + roundedQuotient num (den * Nat.pow 2 shift)) infinityBits

/-- The double with a given sign and magnitude bits. -/
def toFloat (negative : Bool) (bits : Nat) : Float :=
  Float.ofBits (UInt64.ofNat (if negative then signBit + bits else bits))

/-- The value as a whole number, if it is finite and has no fraction. -/
def integer? (x : Float) : Option Int :=
  if magnitudeBits x < infinityBits ∧ ofFloat x % one = 0 then
    let whole : Int := (ofFloat x / one : Nat)
    some (if isNegative x then -whole else whole)
  else none

/-- The double nearest to an integer, if the integer lies in the range of finite doubles. -/
def ofInt? (i : Int) : Option Float :=
  let bits := nearestBits (i.natAbs * one) 1
  if bits < infinityBits then some (toFloat (decide (i < 0)) bits) else none

/--
The remainder of the division that rounds toward zero, which is exact and has the sign of the
dividend. There is none for an infinite dividend or a zero divisor.
-/
def remainder (a b : Float) : Float :=
  if b == 0 || a.isInf || a.isNaN || b.isNaN then 0 / 0
  else if b.isInf then a
  else toFloat (isNegative a) (nearestBits (ofFloat a % ofFloat b) 1)

end KeyTree.Quanta
