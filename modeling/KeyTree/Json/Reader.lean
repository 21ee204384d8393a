import KeyTree.Json.Lexeme
import KeyTree.Nesting

/-!
# Reading JSON

The reader takes one lexeme at a time and keeps what is open around the next value, the innermost
first. So it never looks back, and a text is refused at its first lexeme that cannot stand there.
-/

namespace KeyTree.Json

/-- Why a text is no JSON document. -/
inductive ReadFault where
  | syntaxFault (cause : Cause) (line column position : Nat)
  | tooManyDigits (fault : TooManyDigits)
  | encoding (fault : Text.EncodingFault)
  | tooDeep
  deriving DecidableEq

def ReadFault.message : ReadFault → String
  | syntaxFault cause line column position =>
    s!"{cause.message}: line {line} column {column} (char {position})"
  | tooManyDigits fault => fault.message
  | encoding fault => fault.message
  | tooDeep => "Nested too deeply"

/-- Why reading stops, with the place as the text that is left. -/
inductive Stop where
  | spot (spot : Spot)
  | tooManyDigits (fault : TooManyDigits)
  | tooDeep

/-- The fault of a text at a spot in it. Lines end at line feeds, and columns start at 1. -/
def Spot.locate (text : List Char) (spot : Spot) : ReadFault :=
  let position := text.length - spot.suffix.length
  let before := text.take position
  let column := (before.reverse.takeWhile (· != '\n')).length + 1
  .syntaxFault spot.cause (before.count '\n' + 1) column position

def Stop.locate (text : List Char) : Stop → ReadFault
  | .spot place => place.locate text
  | .tooManyDigits fault => .tooManyDigits fault
  | .tooDeep => .tooDeep

/-- An array or object around a value, with what it holds before the value, the last item first. -/
inductive Frame where
  | array (before : List Json)
  | object (before : List (String × Json)) (key : String)

/-- What may follow. -/
inductive Expect where
  | value
  /-- A value, or the end of an array without items. -/
  | firstItem
  /-- A key, or the end of an object without members. -/
  | firstKey
  | key (before : List (String × Json))
  | colon (before : List (String × Json)) (key : String)
  /-- A comma, or the end of an array. -/
  | nextItem (before : List Json)
  /-- A comma, or the end of an object. -/
  | nextKey (before : List (String × Json))
  /-- Nothing, as the document is complete. -/
  | nothing (document : Json)

/-- What may follow, and what is open around it. -/
structure Reading where
  expect : Expect
  frames : List Frame

namespace Reading

def start : Reading := ⟨.value, []⟩

/-- A complete value goes into the innermost frame. -/
def complete (value : Json) : List Frame → Reading
  | [] => ⟨.nothing value, []⟩
  | .array before :: frames => ⟨.nextItem (value :: before), frames⟩
  | .object before key :: frames => ⟨.nextKey ((key, value) :: before), frames⟩

/-- An array from its items, the last one first. -/
def closeArray (before : List Json) (frames : List Frame) : Reading :=
  complete (.array before.reverse) frames

/-- An object from its members, the last one first. A key that is repeated keeps its first place. -/
def closeObject (before : List (String × Json)) (frames : List Frame) : Reading :=
  complete (.object (Ordered.ofList before.reverse)) frames

/-- Opens an array or an object, unless too much is open. -/
def openWith (expect : Expect) (frames : List Frame) : Except Stop Reading :=
  if frames.length < callLimit then .ok ⟨expect, frames⟩ else .error .tooDeep

/-- Reads the first lexeme of a value. -/
def value (frames : List Frame) (placed : Placed) : Except Stop Reading :=
  match placed.lexeme with
  | .openArray => openWith .firstItem frames
  | .openObject => openWith .firstKey frames
  | .string text => .ok (complete (.string text) frames)
  | .scalar value => .ok (complete value frames)
  | .badString spot => .error (.spot spot)
  | .tooLong fault => .error (.tooManyDigits fault)
  | _ => .error (.spot ⟨.value, placed.suffix⟩)

/-- Reads a key. -/
def key (before : List (String × Json)) (frames : List Frame) (placed : Placed) :
    Except Stop Reading :=
  match placed.lexeme with
  | .string text => .ok ⟨.colon before text, frames⟩
  | .badString spot => .error (.spot spot)
  | _ => .error (.spot ⟨.propertyName, placed.suffix⟩)

def next (reading : Reading) (placed : Placed) : Except Stop Reading :=
  let frames := reading.frames
  match reading.expect, placed.lexeme with
  | .value, _ => value frames placed
  | .firstItem, .closeArray => .ok (closeArray [] frames)
  | .firstItem, _ => value (.array [] :: frames) placed
  | .firstKey, .closeObject => .ok (closeObject [] frames)
  | .firstKey, _ => key [] frames placed
  | .key before, _ => key before frames placed
  | .colon before key, .colon => .ok ⟨.value, .object before key :: frames⟩
  | .colon _ _, _ => .error (.spot ⟨.colon, placed.suffix⟩)
  | .nextItem before, .closeArray => .ok (closeArray before frames)
  | .nextItem before, .comma => .ok ⟨.value, .array before :: frames⟩
  | .nextItem _, _ => .error (.spot ⟨.comma, placed.suffix⟩)
  | .nextKey before, .closeObject => .ok (closeObject before frames)
  | .nextKey before, .comma => .ok ⟨.key before, frames⟩
  | .nextKey _, _ => .error (.spot ⟨.comma, placed.suffix⟩)
  | .nothing _, _ => .error (.spot ⟨.extraData, placed.suffix⟩)

/-- The document, if the text may end here. -/
def finish (reading : Reading) : Except Stop Json :=
  match reading.expect with
  | .nothing document => .ok document
  | .value | .firstItem => .error (.spot ⟨.value, []⟩)
  | .firstKey | .key _ => .error (.spot ⟨.propertyName, []⟩)
  | .colon _ _ => .error (.spot ⟨.colon, []⟩)
  | .nextItem _ | .nextKey _ => .error (.spot ⟨.comma, []⟩)

/-- Reads the lexemes that are left. -/
def run (reading : Reading) : List Placed → Except Stop Json
  | [] => reading.finish
  | placed :: rest => reading.next placed >>= fun reading ↦ run reading rest

end Reading

/-- Reads the characters of a document. -/
def readChars (text : List Char) : Except ReadFault Json :=
  (Reading.start.run (lexemes text)).mapError (Stop.locate text)

/-- Reads a text, which must not start with a byte order mark. -/
def readText (text : String) : Except ReadFault Json :=
  match text.toList with
  | '\uFEFF' :: rest => .error (Spot.locate ('\uFEFF' :: rest) ⟨.byteOrderMark, '\uFEFF' :: rest⟩)
  | chars => readChars chars

/-- A document that has not been read: a text, or bytes whose encoding shows in them. -/
inductive Source where
  | text (value : String)
  | bytes (value : List UInt8)
  deriving DecidableEq

def Source.read : Source → Except ReadFault Json
  | text value => readText value
  | bytes value => ((Text.decode value).mapError .encoding) >>= readChars

end KeyTree.Json
