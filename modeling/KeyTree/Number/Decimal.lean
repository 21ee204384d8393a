import KeyTree.Number.Quanta

/-!
# Decimals and the doubles nearest to them

A decimal is a coefficient times a power of ten. `nearestBits` reads it as a double, and `shortest`
is the way back: the fewest digits that read as the same double, the nearest of those to its value.
-/

namespace KeyTree

/-- The non-negative number `coefficient * 10 ^ exponent`. -/
structure Decimal where
  coefficient : Nat
  exponent : Int
  deriving DecidableEq

namespace Decimal

/--
The bit pattern of the nearest double. Decimals of at least ten to the 400th are infinite, and those
below half a quantum are zero, so that no power of ten beyond the length of a text is computed.
-/
def nearestBits (d : Decimal) : Nat :=
  if d.coefficient = 0 then 0
  else if 400 < d.exponent then Quanta.infinityBits
  else if (d.coefficient.log2 : Int) + 3 * d.exponent < -1076 then 0
  else if 0 ≤ d.exponent then
    Quanta.nearestBits (d.coefficient * Nat.pow 10 d.exponent.toNat * Quanta.one) 1
  else Quanta.nearestBits (d.coefficient * Quanta.one) (Nat.pow 10 (-d.exponent).toNat)

def toFloat (negative : Bool) (d : Decimal) : Float :=
  Quanta.toFloat negative d.nearestBits

/-- The exact value of a number of quanta. -/
def ofQuanta (quanta : Nat) : Decimal := ⟨quanta * Nat.pow 5 1074, -1074⟩

/-- The decimal digits of a natural number, most significant first. -/
def digits (n : Nat) : List Char := Nat.toDigits 10 n

/-- The least power of ten above a positive number of quanta. -/
def scale (quanta : Nat) : Int :=
  ((digits (quanta * Nat.pow 10 343 / Quanta.one)).length : Int) - 343

/-- A number of quanta divided by a power of ten, as numerator and denominator. -/
def quotient (quanta : Nat) (grid : Int) : Nat × Nat :=
  if 0 ≤ grid then (quanta, Quanta.one * Nat.pow 10 grid.toNat)
  else (quanta * Nat.pow 10 (-grid).toNat, Quanta.one)

/--
The multiple of `10 ^ grid` that reads back as the double with these bits, if one of the two
neighbours of the value does. If both do, the nearer one is taken and of equally near ones the even.
-/
def onGrid? (bits : Nat) (grid : Int) : Option Decimal :=
  let (num, den) := quotient (Quanta.ofBits bits) grid
  let below : Decimal := ⟨num / den, grid⟩
  let above : Decimal := ⟨num / den + 1, grid⟩
  let nearest : Decimal := ⟨Quanta.roundedQuotient num den, grid⟩
  if nearest.nearestBits = bits then some nearest
  else if below.nearestBits = bits then some below
  else if above.nearestBits = bits then some above
  else none

/--
The shortest decimal that reads back as the double with these bits. Seventeen digits always
suffice; the exact value stands behind them.
-/
def shortest (bits : Nat) : Decimal :=
  let top := scale (Quanta.ofBits bits)
  ((List.range 17).findSome? fun n ↦ onGrid? bits (top - (n + 1 : Nat))).getD
    (ofQuanta (Quanta.ofBits bits))

end Decimal

end KeyTree
