import KeyTree.Json.Basic
import KeyTree.Number.Whole
import KeyTree.Text.Encoding

/-!
# Lexemes of JSON

A text is split into punctuation, strings, and the other scalars. Each lexeme remembers the text from
its first character on. What is no lexeme ends the list, and is a fault only if the reader gets there
and wants a value, or a string.
-/

namespace KeyTree.Json

/-- What a text lacks, or has too much, at one of its characters. -/
inductive Cause where
  | value
  | propertyName
  | colon
  | comma
  | extraData
  | unterminated
  | control
  | escape
  | unicodeEscape
  | byteOrderMark
  deriving DecidableEq

def Cause.message : Cause → String
  | value => "Expecting value"
  | propertyName => "Expecting property name enclosed in double quotes"
  | colon => "Expecting ':' delimiter"
  | comma => "Expecting ',' delimiter"
  | extraData => "Extra data"
  | unterminated => "Unterminated string starting at"
  | control => "Invalid control character at"
  | escape => "Invalid \\escape"
  | unicodeEscape => "Invalid \\uXXXX escape"
  | byteOrderMark => "Unexpected UTF-8 BOM (decode using utf-8-sig)"

/-- A cause, and the text from the character on where it shows. -/
structure Spot where
  cause : Cause
  suffix : List Char
  deriving DecidableEq

inductive Lexeme where
  | openArray
  | closeArray
  | openObject
  | closeObject
  | colon
  | comma
  | string (text : String)
  | badString (spot : Spot)
  /-- A number or one of the names. -/
  | scalar (value : Json)
  | tooLong (fault : TooManyDigits)
  | junk

/-- A lexeme and the text from its first character on. -/
structure Placed where
  lexeme : Lexeme
  suffix : List Char

def isSpace (c : Char) : Bool := c == ' ' || c == '\t' || c == '\n' || c == '\r'

/-! ## Strings -/

def hexDigit? (c : Char) : Option Nat :=
  if '0' ≤ c ∧ c ≤ '9' then some (c.toNat - 48)
  else if 'a' ≤ c ∧ c ≤ 'f' then some (c.toNat - 87)
  else if 'A' ≤ c ∧ c ≤ 'F' then some (c.toNat - 55)
  else none

/-- The value of four hexadecimal digits at the start of a text that goes on behind them. -/
def unit? : List Char → Option Nat
  | a :: b :: c :: d :: _ :: _ => do
    let a ← hexDigit? a
    let b ← hexDigit? b
    let c ← hexDigit? c
    let d ← hexDigit? d
    some (((a * 16 + b) * 16 + c) * 16 + d)
  | _ => none

/-- The character that a backslash and a letter stand for. -/
def unescape? : Char → Option Char
  | '"' => some '"'
  | '\\' => some '\\'
  | '/' => some '/'
  | 'b' => some '\x08'
  | 'f' => some '\x0c'
  | 'n' => some '\n'
  | 'r' => some '\r'
  | 't' => some '\t'
  | _ => none

def isHighSurrogate (unit : Nat) : Bool := decide (0xD800 ≤ unit ∧ unit ≤ 0xDBFF)

def isLowSurrogate (unit : Nat) : Bool := decide (0xDC00 ≤ unit ∧ unit ≤ 0xDFFF)

/-- The rest of a string behind its opening quote, up to the closing one. -/
inductive StringScan where
  | closed (text : List Char) (rest : List Char)
  | unterminated
  | faulty (spot : Spot)

def StringScan.cons (c : Char) : StringScan → StringScan
  | closed text rest => closed (c :: text) rest
  | scan => scan

/-- Reads a string behind its opening quote. Two escapes of a surrogate pair are one character. -/
def scanString (s : List Char) : StringScan :=
  match s with
  | [] => .unterminated
  | '"' :: rest => .closed [] rest
  | ['\\'] => .unterminated
  | '\\' :: 'u' :: tail =>
    match unit? tail with
    | none => .faulty ⟨.unicodeEscape, 'u' :: tail⟩
    | some high =>
      match isHighSurrogate high, tail.drop 4 with
      | true, '\\' :: 'u' :: second =>
        match unit? second with
        | none => .faulty ⟨.unicodeEscape, 'u' :: second⟩
        | some low =>
          if isLowSurrogate low then
            (scanString (tail.drop 10)).cons
              (Text.scalar (0x10000 + (high - 0xD800) * 0x400 + (low - 0xDC00)))
          else (scanString (tail.drop 4)).cons (Text.scalar high)
      | _, _ => (scanString (tail.drop 4)).cons (Text.scalar high)
  | '\\' :: c :: rest => match unescape? c with
    | none => .faulty ⟨.escape, '\\' :: c :: rest⟩
    | some d => (scanString rest).cons d
  | c :: rest =>
    if c.toNat < 0x20 then .faulty ⟨.control, c :: rest⟩ else (scanString rest).cons c
termination_by s.length
decreasing_by all_goals (simp only [List.length_cons, List.length_drop]; omega)

/-! ## Numbers and names -/

/-- The names, and the values they stand for. -/
def names : List (List Char × Json) :=
  [("null".toList, .null), ("true".toList, .boolean true), ("false".toList, .boolean false),
    ("NaN".toList, .number (0 / 0)), ("Infinity".toList, .number (1 / 0)),
    ("-Infinity".toList, .number (-1 / 0))]

/-- The whole part of a number: a zero alone, or digits that do not start with one. -/
def wholePart (s : List Char) : List Char :=
  match s with
  | '0' :: _ => ['0']
  | s => s.takeWhile Text.isPlainDigit

/-- A point with digits behind it. -/
def fractionPart (s : List Char) : List Char :=
  match s with
  | '.' :: rest =>
    let digits := rest.takeWhile Text.isPlainDigit
    if digits.isEmpty then [] else '.' :: digits
  | _ => []

/-- An exponent mark, perhaps a sign, and digits. -/
def exponentPart (s : List Char) : List Char :=
  match s with
  | mark :: rest =>
    if mark == 'e' || mark == 'E' then
      let sign := (rest.take 1).filter fun c ↦ c == '+' || c == '-'
      let digits := (rest.drop sign.length).takeWhile Text.isPlainDigit
      if digits.isEmpty then [] else mark :: (sign ++ digits)
    else []
  | [] => []

/-- The parts of a number at the start of a text: sign, whole part, fraction and exponent. -/
structure NumberParts where
  sign : List Char
  whole : List Char
  fraction : List Char
  exponent : List Char

namespace NumberParts

def text (n : NumberParts) : List Char := n.sign ++ n.whole ++ n.fraction ++ n.exponent

/-- A number without fraction and exponent is whole. -/
def lexeme (n : NumberParts) : Lexeme :=
  let negative := !n.sign.isEmpty
  if n.fraction.isEmpty && n.exponent.isEmpty then
    match Whole.read n.whole with
    | .ok size => .scalar (.integer (if negative then -(size : Int) else size))
    | .error fault => .tooLong fault
  else
    let numeral : Numeral := ⟨n.whole, some (n.fraction.drop 1)⟩
    .scalar (.number ((numeral.decimal (Number.scanExponent n.exponent).1).toFloat negative))

end NumberParts

/-- The longest number at the start of a text. -/
def scanNumber? (s : List Char) : Option NumberParts :=
  let sign := (s.take 1).filter (· == '-')
  let s := s.drop sign.length
  let whole := wholePart s
  let s := s.drop whole.length
  let fraction := fractionPart s
  let s := s.drop fraction.length
  if whole.isEmpty then none else some ⟨sign, whole, fraction, exponentPart s⟩

/-- The scalar at the start of a text that is no string, and its length. -/
def scanScalar? (s : List Char) : Option (Lexeme × Nat) :=
  match names.find? fun name ↦ name.1.isPrefixOf s with
  | some (name, value) => some (.scalar value, name.length)
  | none => (scanNumber? s).map fun n ↦ (n.lexeme, n.text.length)

/-! ## The whole text -/

def punctuation? : Char → Option Lexeme
  | '[' => some .openArray
  | ']' => some .closeArray
  | '{' => some .openObject
  | '}' => some .closeObject
  | ':' => some .colon
  | ',' => some .comma
  | _ => none

/-- What follows a string that is closed. -/
def StringScan.after : StringScan → List Char
  | closed _ rest => rest
  | _ => []

@[simp] theorem StringScan.after_closed (text rest : List Char) : (closed text rest).after = rest :=
  rfl

@[simp] theorem StringScan.after_unterminated : unterminated.after = [] := rfl

@[simp] theorem StringScan.after_faulty (spot : Spot) : (faulty spot).after = [] := rfl

@[simp] theorem StringScan.after_cons (c : Char) (scan : StringScan) :
    (scan.cons c).after = scan.after := by
  cases scan <;> rfl

theorem length_after_scanString_le (s : List Char) : (scanString s).after.length ≤ s.length := by
  fun_induction scanString s <;>
    simp only [StringScan.after_closed, StringScan.after_unterminated, StringScan.after_faulty,
      StringScan.after_cons, List.length_cons, List.length_nil, List.length_drop] at * <;>
    omega

/-- The lexemes of a text, up to the first thing that is none. -/
def lexemes (s : List Char) : List Placed :=
  match s with
  | [] => []
  | c :: rest =>
    if isSpace c then lexemes rest
    else match punctuation? c with
      | some lexeme => ⟨lexeme, c :: rest⟩ :: lexemes rest
      | none =>
        if c = '"' then
          match h : scanString rest with
          | .closed text after =>
            have : after.length ≤ rest.length := by
              simpa [h] using length_after_scanString_le rest
            ⟨.string (String.ofList text), c :: rest⟩ :: lexemes after
          | .unterminated => [⟨.badString ⟨.unterminated, c :: rest⟩, c :: rest⟩]
          | .faulty spot => [⟨.badString spot, c :: rest⟩]
        else match scanScalar? (c :: rest) with
          | some (lexeme, size + 1) => ⟨lexeme, c :: rest⟩ :: lexemes (rest.drop size)
          | _ => [⟨.junk, c :: rest⟩]
termination_by s.length
decreasing_by all_goals (simp only [List.length_cons, List.length_drop]; omega)

end KeyTree.Json
