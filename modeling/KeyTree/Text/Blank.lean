/-!
# Blank characters

White space in the wide sense: the space characters of every script, the line breaks, and the four
information separators. Some texts leave the separators out, and say so.
-/

namespace KeyTree.Text

/-- The information separators U+001C to U+001F. -/
def isSeparator (c : Char) : Bool := decide (0x1C ≤ c.toNat ∧ c.toNat ≤ 0x1F)

def isBlank (c : Char) : Bool :=
  let n := c.toNat
  decide (9 ≤ n ∧ n ≤ 13) || isSeparator c || n == 0x20 || n == 0x85 || n == 0xA0 || n == 0x1680 ||
    decide (0x2000 ≤ n ∧ n ≤ 0x200A) || n == 0x2028 || n == 0x2029 || n == 0x202F || n == 0x205F ||
    n == 0x3000

/-- Drops the characters of a class from both ends. -/
def trim (p : Char → Bool) (s : List Char) : List Char :=
  ((s.dropWhile p).reverse.dropWhile p).reverse

/-- Nothing but blanks. -/
def isBlankText (s : String) : Bool := s.toList.all isBlank

end KeyTree.Text
