import KeyTree.Number.Decimal

/-!
# Numbers as text

A number is written with the fewest digits that identify it, positionally while its leading digit
lies between the 4th place after the point and the 16th before it, otherwise with a signed exponent.
The layout is one record, so that its decisions stand in one place.
-/

namespace KeyTree

/-- How the digits of a number are set out. -/
structure Layout where
  /-- Least exponent of the leading digit that is written positionally. -/
  least : Int
  /-- Greatest exponent of the leading digit that is written positionally. -/
  greatest : Int
  /-- Least number of digits of a written exponent. -/
  exponentWidth : Nat
  infinity : String
  nan : String

namespace Layout

def padded (width : Nat) (digits : List Char) : List Char :=
  List.replicate (width - digits.length) '0' ++ digits

/-- Digits around a point that stands after the first `whole` of them; a point has digits on both sides. -/
def positional (digits : List Char) (whole : Int) : List Char :=
  if whole ≤ 0 then '0' :: '.' :: (List.replicate (-whole).toNat '0' ++ digits)
  else
    let front := digits.take whole.toNat
    let back := digits.drop whole.toNat
    front ++ List.replicate (whole.toNat - front.length) '0' ++
      '.' :: (if back.isEmpty then ['0'] else back)

/-- One digit, the others behind a point, and a signed exponent. -/
def exponential (width : Nat) (digits : List Char) (exponent : Int) : List Char :=
  let sign := if exponent < 0 then '-' else '+'
  let tail := 'e' :: sign :: padded width (Decimal.digits exponent.natAbs)
  match digits with
  | [] => tail
  | [d] => d :: tail
  | d :: rest => d :: '.' :: rest ++ tail

/-- A decimal without its superfluous zeros, set out by the layout. -/
def decimal (layout : Layout) (d : Decimal) : List Char :=
  let all := Decimal.digits d.coefficient
  let leading := (all.length : Int) - 1 + d.exponent
  let trimmed := (all.reverse.dropWhile (· == '0')).reverse
  if trimmed.isEmpty then ['0', '.', '0']
  else if layout.least ≤ leading ∧ leading ≤ layout.greatest then positional trimmed (leading + 1)
  else exponential layout.exponentWidth trimmed leading

/-- The text of a double. -/
def text (layout : Layout) (x : Float) : String :=
  if x.isNaN then layout.nan
  else
    let sign := if Quanta.isNegative x then ['-'] else []
    let bits := Quanta.magnitudeBits x
    if bits < Quanta.infinityBits then
      String.ofList (sign ++ layout.decimal (Decimal.shortest bits))
    else String.ofList sign ++ layout.infinity

/-- The layout of numbers in messages. -/
def plain : Layout := ⟨-4, 15, 2, "inf", "nan"⟩

/-- The layout of numbers in documents and in shown values. -/
def document : Layout := { plain with infinity := "Infinity", nan := "NaN" }

end Layout

namespace Number

/--
The text shown for a number and substituted for a reference to it: a whole number below ten to the
21st has its digits alone, and any other number the layout of documents.
-/
def shown (x : Float) : String :=
  match Quanta.integer? x with
  | some i => if i.natAbs < Nat.pow 10 21 then toString i else Layout.document.text x
  | none => Layout.document.text x

end Number

end KeyTree
