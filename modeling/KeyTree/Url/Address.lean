import KeyTree.Json.Lexeme
import KeyTree.Text.Fields
import KeyTree.Text.Digit

/-!
# Numeric addresses

Hosts that look like numeric addresses have to be such addresses. Four runs of digits with full stops
between them look like the short form, and brackets like the long form.
-/

namespace KeyTree.Url

/-! ## Four numbers -/

/-- Whether a text is four runs of digits with full stops between them. -/
def looksLikeV4 (host : List Char) : Bool :=
  let runs := Text.fieldList '.' host
  runs.length == 4 && runs.all fun run ↦ !run.isEmpty && run.all Text.isPlainDigit

/-- A number from 0 to 255 without superfluous zeros. -/
def isOctet (s : List Char) : Bool :=
  !s.isEmpty && s.all Text.isPlainDigit && decide (s.length ≤ 3) &&
    (s == ['0'] || s.head? != some '0') && decide (Text.digitsValue s ≤ 255)

def isV4 (host : List Char) : Bool :=
  let octets := Text.fieldList '.' host
  octets.length == 4 && octets.all isOctet

/-! ## Eight groups -/

/-- One to four hexadecimal digits. -/
def isGroup (s : List Char) : Bool :=
  !s.isEmpty && decide (s.length ≤ 4) && s.all fun c ↦ (Json.hexDigit? c).isSome

/-- The groups of an address, where a short address at the end stands for two. -/
def groups? (s : List Char) : Option (List (List Char)) :=
  let groups := Text.fieldList ':' s
  let last := groups.getLastD []
  if groups.length < 3 then none
  else if last.contains '.' then
    if isV4 last then some (groups.dropLast ++ [['0'], ['0']]) else none
  else some groups

/-- The groups on each side of the first empty one that is not at an end. -/
def splitAtGap (groups : List (List Char)) : Option (List (List Char) × List (List Char)) :=
  let inner := (groups.drop 1).dropLast
  let before := inner.takeWhile (!·.isEmpty)
  if before.length < inner.length then
    some (groups.take (before.length + 1), groups.drop (before.length + 2))
  else none

/-- One side of a gap may be empty, or consist of groups. -/
def isSide (side : List (List Char)) : Bool := side == [[]] || side.all isGroup

def sideLength (side : List (List Char)) : Nat := if side == [[]] then 0 else side.length

/-- Eight groups, or fewer with one gap in them. A zone may follow behind a percent sign. -/
def isV6 (host : List Char) : Bool :=
  let (address, zone) := match Text.cut? '%' host with
    | some (address, zone) => (address, !zone.isEmpty && !zone.contains '%')
    | none => (host, true)
  !host.contains '/' && zone && match groups? address with
    | none => false
    | some groups => match splitAtGap groups with
      | none => groups.length == 8 && groups.all isGroup
      | some (front, back) =>
        isSide front && isSide back && decide (sideLength front + sideLength back ≤ 7)

end KeyTree.Url
