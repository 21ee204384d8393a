import KeyTree.Number.Numeral

/-!
# Whole numbers as text

Reading a whole number refuses texts of more than 4300 digits, so that no text costs more than its
size warrants.
-/

namespace KeyTree

/-- A whole number with more digits than are read. -/
structure TooManyDigits where
  digits : Nat
  deriving DecidableEq

namespace TooManyDigits

def limit : Nat := 4300

def message (e : TooManyDigits) : String :=
  s!"Exceeds the limit ({limit} digits) for integer string conversion: " ++
    s!"value has {e.digits} digits; use sys.set_int_max_str_digits() to increase the limit"

end TooManyDigits

namespace Whole

/-- The number that a run of digits stands for. -/
def read (digits : List Char) : Except TooManyDigits Nat :=
  if TooManyDigits.limit < digits.length then .error ⟨digits.length⟩
  else .ok (Text.digitsValue digits)

/-- A whole number with an optional sign, grouping underscores and blanks around it. -/
def signed? (s : List Char) : Option Int := do
  let chars ← Number.ungroup? false (Text.trim Number.isMargin s)
  let (negative, digits) := Number.scanSign chars
  if digits.isEmpty || !digits.all Text.isDigit then none
  else
    let size ← (read digits).toOption
    some (if negative then -(size : Int) else size)

end Whole

end KeyTree
