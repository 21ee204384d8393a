import KeyTree.Number.Decimal
import KeyTree.Text.Blank
import KeyTree.Text.Digit

/-!
# Numerals

A numeral is a run of digits with at most one point in it. Numbers in texts are numerals with an
exponent, a sign and some freedom around them, and `Number.read?` says which texts are numbers.
-/

namespace KeyTree

/-- Digits before a point, and those after it if there is a point. -/
structure Numeral where
  whole : List Char
  fraction : Option (List Char)
  deriving DecidableEq

namespace Numeral

def text (n : Numeral) : List Char :=
  n.whole ++ match n.fraction with
    | none => []
    | some digits => '.' :: digits

/-- The numeral times a power of ten. -/
def decimal (n : Numeral) (exponent : Int) : Decimal :=
  let behind := n.fraction.getD []
  ⟨Text.digitsValue (n.whole ++ behind), exponent - behind.length⟩

/-- The double nearest to the numeral. -/
def toFloat (n : Numeral) : Float := (n.decimal 0).toFloat false

/-- The longest numeral at the start of a text, and what follows it. -/
def scan? (s : List Char) : Option (Numeral × List Char) :=
  let whole := s.takeWhile Text.isDigit
  match s.dropWhile Text.isDigit with
  | '.' :: rest =>
    let digits := rest.takeWhile Text.isDigit
    if whole.isEmpty && digits.isEmpty then none
    else some (⟨whole, some digits⟩, rest.dropWhile Text.isDigit)
  | rest => if whole.isEmpty then none else some (⟨whole, none⟩, rest)

/-- Nothing is lost: the numeral and what follows it make up the text. -/
theorem text_append_of_scan? {s rest : List Char} {n : Numeral} (h : scan? s = some (n, rest)) :
    n.text ++ rest = s := by
  have split := List.takeWhile_append_dropWhile (p := Text.isDigit) (l := s)
  unfold scan? at h
  revert h
  generalize s.takeWhile Text.isDigit = whole at *
  generalize s.dropWhile Text.isDigit = tail at *
  subst split
  intro h
  dsimp only at h
  split at h
  · split at h
    · simp at h
    · obtain ⟨rfl, rfl⟩ : _ ∧ _ := by simpa using h
      simp [text]
  · split at h
    · simp at h
    · obtain ⟨rfl, rfl⟩ : _ ∧ _ := by simpa using h
      simp [text]

theorem text_ne_nil_of_scan? {s rest : List Char} {n : Numeral} (h : scan? s = some (n, rest)) :
    n.text ≠ [] := by
  unfold scan? at h
  dsimp only at h
  split at h
  · split at h
    · simp at h
    · obtain ⟨rfl, rfl⟩ : _ ∧ _ := by simpa using h
      simp [text]
  · split at h
    · simp at h
    · rename_i whole
      obtain ⟨rfl, rfl⟩ : _ ∧ _ := by simpa using h
      simpa [text] using whole

theorem length_lt_of_scan? {s rest : List Char} {n : Numeral} (h : scan? s = some (n, rest)) :
    rest.length < s.length := by
  have whole := text_append_of_scan? h
  have some := List.length_pos_iff.2 (text_ne_nil_of_scan? h)
  rw [← whole, List.length_append]
  omega

end Numeral

namespace Number

/-- A sign at the start of a text: whether it is a minus, and what follows. -/
def scanSign : List Char → Bool × List Char
  | '-' :: rest => (true, rest)
  | '+' :: rest => (false, rest)
  | rest => (false, rest)

/-- An exponent at the start of a text. A mark without digits behind it is no exponent. -/
def scanExponent (s : List Char) : Int × List Char :=
  match s with
  | mark :: rest =>
    if mark = 'e' ∨ mark = 'E' then
      let (negative, tail) := scanSign rest
      let digits := tail.takeWhile Text.isDigit
      let size : Int := Text.digitsValue digits
      if digits.isEmpty then (0, s)
      else (if negative then -size else size, tail.dropWhile Text.isDigit)
    else (0, s)
  | [] => (0, s)

/-- The longest number at the start of a text: sign, numeral and exponent. -/
def scan? (s : List Char) : Option (Float × List Char) :=
  let (negative, unsigned) := scanSign s
  (Numeral.scan? unsigned).map fun (numeral, rest) ↦
    let (exponent, rest) := scanExponent rest
    ((numeral.decimal exponent).toFloat negative, rest)

/--
Drops the underscores of a text whose digits they group: each must have a digit on both sides.
`digitBefore` tells of the character read last.
-/
def ungroup? (digitBefore : Bool) : List Char → Option (List Char)
  | [] => some []
  | '_' :: c :: rest =>
    if digitBefore && Text.isDigit c then (ungroup? true rest).map (c :: ·) else none
  | c :: rest =>
    if c = '_' then none else (ungroup? (Text.isDigit c) rest).map (c :: ·)

/-- Blanks that may surround a number. -/
def isMargin (c : Char) : Bool := Text.isBlank c && !Text.isSeparator c

def infinityNames : List String := ["inf", "infinity"]

/--
The number that a whole text stands for: blanks around it do not count, underscores may group its
digits, which may be those of any script, and infinities and NaN go by their names in any case.
-/
def read? (s : String) : Option Float := do
  let chars ← ungroup? false (Text.trim isMargin s.toList)
  let (negative, unsigned) := scanSign chars
  let name := String.ofList (unsigned.map Char.toLower)
  if infinityNames.contains name then some (if negative then -1 / 0 else 1 / 0)
  else if name = "nan" then some (0 / 0)
  else match scan? chars with
    | some (x, []) => some x
    | _ => none

end Number

end KeyTree
