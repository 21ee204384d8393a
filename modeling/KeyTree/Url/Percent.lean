import KeyTree.Json.Lexeme
import KeyTree.Text.Lossy

/-!
# Percent encoding

A character that may not stand for itself is written as the bytes of its UTF-8 form, each as a percent
sign and two upper-case hexadecimal digits.
-/

namespace KeyTree.Url

def upperHex (n : Nat) : Char := (Nat.digitChar (n % 16)).toUpper

def percentByte (byte : UInt8) : List Char :=
  ['%', upperHex (byte.toNat / 16), upperHex byte.toNat]

def percentChar (c : Char) : List Char := (Text.toUtf8 [c]).flatMap percentByte

/-- Letters, digits and the four marks that stand for themselves everywhere. -/
def isUnreserved (c : Char) : Bool :=
  c.isAlphanum || c == '-' || c == '.' || c == '_' || c == '~'

/-- Encodes the characters outside a class. A class with the percent sign keeps what is encoded. -/
def percentEncode (isSafe : Char → Bool) (s : List Char) : List Char :=
  s.flatMap fun c ↦ if isUnreserved c || isSafe c then [c] else percentChar c

/-- The bytes of a text of ASCII characters, with encoded bytes decoded. -/
def percentBytes (s : List Char) : List UInt8 :=
  match s with
  | '%' :: a :: b :: rest =>
    match Json.hexDigit? a, Json.hexDigit? b with
    | some high, some low => UInt8.ofNat (high * 16 + low) :: percentBytes rest
    | _, _ => Text.toUtf8 ['%'] ++ percentBytes (a :: b :: rest)
  | c :: rest => Text.toUtf8 [c] ++ percentBytes rest
  | [] => []

/-- Decodes a text. Bytes that spell no character give the replacement character. -/
def percentDecode (s : List Char) : List Char := Text.lossyUtf8 (percentBytes s)

end KeyTree.Url
