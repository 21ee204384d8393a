/-!
# Texts as bytes

A document of bytes is read in the encoding that its first bytes show: a byte order mark, or the
zeros that the first characters of a JSON text leave in the wider encodings. Without either it is
UTF-8, in which all texts are written.
-/

namespace KeyTree.Text

inductive Encoding where
  | utf8
  | utf16 (bigEndian : Bool)
  | utf32 (bigEndian : Bool)
  deriving DecidableEq

namespace Encoding

def name : Encoding → String
  | utf8 => "utf-8"
  | utf16 bigEndian => if bigEndian then "utf-16-be" else "utf-16-le"
  | utf32 bigEndian => if bigEndian then "utf-32-be" else "utf-32-le"

end Encoding

inductive EncodingReason where
  | invalidStart
  | invalidContinuation
  | unexpectedEnd
  | truncated
  | outOfRange
  deriving DecidableEq

def EncodingReason.message : EncodingReason → String
  | invalidStart => "invalid start byte"
  | invalidContinuation => "invalid continuation byte"
  | unexpectedEnd => "unexpected end of data"
  | truncated => "truncated data"
  | outOfRange => "code point not in range(0x110000)"

/-- Bytes that spell no character: the first of them, its position and their number. -/
structure EncodingFault where
  encoding : Encoding
  first : UInt8
  position : Nat
  count : Nat
  reason : EncodingReason
  deriving DecidableEq

def EncodingFault.message (e : EncodingFault) : String :=
  let place :=
    if e.count = 1 then
      let digits := [Nat.digitChar (e.first.toNat / 16), Nat.digitChar (e.first.toNat % 16)]
      s!"byte 0x{String.ofList digits} in position {e.position}"
    else s!"bytes in position {e.position}-{e.position + e.count - 1}"
  s!"'{e.encoding.name}' codec can't decode {place}: {e.reason.message}"

/-- The bytes of a text in UTF-8. -/
def toUtf8 (s : List Char) : List UInt8 := s.flatMap String.utf8EncodeChar

/-- A code point as a character. Halves of surrogate pairs give the replacement character. -/
def scalar (code : Nat) : Char :=
  if 0xD800 ≤ code ∧ code ≤ 0xDFFF then '\uFFFD' else Char.ofNat code

/-! ## UTF-8 -/

/-- What the first byte of a character says: bits of the code point, how many bytes follow, and the
least and the greatest value of the next one. -/
structure Lead where
  bits : Nat
  following : Nat
  least : Nat
  greatest : Nat

def lead? (byte : UInt8) : Option Lead :=
  let b := byte.toNat
  if b < 0x80 then some ⟨b, 0, 0x80, 0xBF⟩
  else if b < 0xC2 then none
  else if b < 0xE0 then some ⟨b - 0xC0, 1, 0x80, 0xBF⟩
  else if b = 0xE0 then some ⟨0, 2, 0xA0, 0xBF⟩
  else if b = 0xED then some ⟨0xD, 2, 0x80, 0x9F⟩
  else if b < 0xF0 then some ⟨b - 0xE0, 2, 0x80, 0xBF⟩
  else if b = 0xF0 then some ⟨0, 3, 0x90, 0xBF⟩
  else if b < 0xF4 then some ⟨b - 0xF0, 3, 0x80, 0xBF⟩
  else if b = 0xF4 then some ⟨4, 3, 0x80, 0x8F⟩
  else none

/-- The code point of a character behind its first byte, or how many bytes were good before the
fault. -/
def continueWith (bits least greatest : Nat) :
    Nat → List UInt8 → Except (Nat × EncodingReason) Nat
  | 0, _ => .ok bits
  | _ + 1, [] => .error (1, .unexpectedEnd)
  | following + 1, byte :: rest =>
    if least ≤ byte.toNat ∧ byte.toNat ≤ greatest then
      (continueWith (bits * 64 + (byte.toNat - 0x80)) 0x80 0xBF following rest).mapError
        fun (count, reason) ↦ (count + 1, reason)
    else .error (1, .invalidContinuation)

/-- Half of a surrogate pair in three bytes, which is let through in documents. -/
def isSurrogateHalf : List UInt8 → Bool
  | a :: b :: c :: _ =>
    a == 0xED && decide (0xA0 ≤ b ∧ b ≤ 0xBF) && decide (0x80 ≤ c ∧ c ≤ 0xBF)
  | _ => false

/-- The characters of bytes in UTF-8. Strictly, no half of a surrogate pair is let through. -/
def ofUtf8 (strict : Bool) (position : Nat) (bytes : List UInt8) :
    Except EncodingFault (List Char) :=
  match bytes with
  | [] => .ok []
  | byte :: rest => match lead? byte with
    | none => .error ⟨.utf8, byte, position, 1, .invalidStart⟩
    | some lead => match continueWith lead.bits lead.least lead.greatest lead.following rest with
      | .ok code =>
        (ofUtf8 strict (position + 1 + lead.following) (rest.drop lead.following)).map
          (scalar code :: ·)
      | .error (count, reason) =>
        if !strict && isSurrogateHalf (byte :: rest) then
          (ofUtf8 strict (position + 3) (rest.drop 2)).map ('\uFFFD' :: ·)
        else .error ⟨.utf8, byte, position, count, reason⟩
termination_by bytes.length
decreasing_by all_goals (simp only [List.length_cons, List.length_drop]; omega)

/-! ## Wider units -/

/-- The number that bytes make up. -/
def unit (bigEndian : Bool) (bytes : List UInt8) : Nat :=
  (if bigEndian then bytes else bytes.reverse).foldl (fun total b ↦ total * 256 + b.toNat) 0

/-- Characters of units of two bytes, where a pair of surrogates is one character. -/
def ofUtf16 (bigEndian : Bool) (position : Nat) : List UInt8 → Except EncodingFault (List Char)
  | [] => .ok []
  | [a] => .error ⟨.utf16 bigEndian, a, position, 1, .truncated⟩
  | a :: b :: rest =>
    let high := unit bigEndian [a, b]
    match rest with
    | c :: d :: tail =>
      let low := unit bigEndian [c, d]
      if 0xD800 ≤ high ∧ high ≤ 0xDBFF ∧ 0xDC00 ≤ low ∧ low ≤ 0xDFFF then
        (ofUtf16 bigEndian (position + 4) tail).map
          (scalar (0x10000 + (high - 0xD800) * 0x400 + (low - 0xDC00)) :: ·)
      else (ofUtf16 bigEndian (position + 2) (c :: d :: tail)).map (scalar high :: ·)
    | rest => (ofUtf16 bigEndian (position + 2) rest).map (scalar high :: ·)
termination_by bytes => bytes.length
decreasing_by all_goals (simp only [List.length_cons]; omega)

def ofUtf32 (bigEndian : Bool) (position : Nat) : List UInt8 → Except EncodingFault (List Char)
  | [] => .ok []
  | a :: b :: c :: d :: rest =>
    let code := unit bigEndian [a, b, c, d]
    if code < 0x110000 then (ofUtf32 bigEndian (position + 4) rest).map (scalar code :: ·)
    else .error ⟨.utf32 bigEndian, a, position, 4, .outOfRange⟩
  | a :: rest => .error ⟨.utf32 bigEndian, a, position, rest.length + 1, .truncated⟩

/-! ## Finding the encoding -/

/-- The encoding that the zeros among the first bytes show. -/
def encodingByZeros : List UInt8 → Encoding
  | [0, _] => .utf16 true
  | [_, 0] => .utf16 false
  | 0 :: b :: _ :: _ :: _ => if b = 0 then .utf32 true else .utf16 true
  | _ :: 0 :: c :: d :: _ => if c = 0 ∧ d = 0 then .utf32 false else .utf16 false
  | _ => .utf8

/-- The characters of a document of bytes. Positions behind the mark of UTF-8 start anew. -/
def decode (bytes : List UInt8) : Except EncodingFault (List Char) :=
  match bytes with
  | 0x00 :: 0x00 :: 0xFE :: 0xFF :: rest => ofUtf32 true 4 rest
  | 0xFF :: 0xFE :: 0x00 :: 0x00 :: rest => ofUtf32 false 4 rest
  | 0xFE :: 0xFF :: rest => ofUtf16 true 2 rest
  | 0xFF :: 0xFE :: rest => ofUtf16 false 2 rest
  | 0xEF :: 0xBB :: 0xBF :: rest => ofUtf8 false 0 rest
  | bytes => match encodingByZeros bytes with
    | .utf8 => ofUtf8 false 0 bytes
    | .utf16 bigEndian => ofUtf16 bigEndian 0 bytes
    | .utf32 bigEndian => ofUtf32 bigEndian 0 bytes

end KeyTree.Text
