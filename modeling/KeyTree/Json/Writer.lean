import KeyTree.Json.Basic
import KeyTree.Text.Quoted

/-!
# Writing JSON

A style says how members and items are set out and which characters are escaped. Numbers are written
with the fewest digits that identify them.
-/

namespace KeyTree.Json

structure Style where
  /-- Whether everything outside printable ASCII is escaped, rather than controls alone. -/
  ascii : Bool
  itemSeparator : List Char
  keySeparator : List Char
  /-- The width of an indentation step. Without it everything stands on one line. -/
  indent : Option Nat

namespace Style

/-- One line without blanks. -/
def compact : Style := ⟨true, [','], [':'], none⟩

/-- One line, with all characters as they are or in ASCII. -/
def line (ascii : Bool) : Style := ⟨ascii, [',', ' '], [':', ' '], none⟩

/-- One item a line. -/
def indented (width : Nat) : Style := ⟨false, [','], [':', ' '], some width⟩

/-- What stands in front of an item at a level. -/
def newline (style : Style) (level : Nat) : List Char :=
  match style.indent with
  | none => []
  | some width => '\n' :: List.replicate (width * level) ' '

end Style

/-- An escape of four hexadecimal digits. -/
def unitEscape (unit : Nat) : List Char := '\\' :: 'u' :: Text.hex 4 unit

/-- A character within a string. -/
def writeChar (ascii : Bool) (c : Char) : List Char :=
  let n := c.toNat
  if c = '"' then ['\\', '"']
  else if c = '\\' then ['\\', '\\']
  else if c = '\n' then ['\\', 'n']
  else if c = '\r' then ['\\', 'r']
  else if c = '\t' then ['\\', 't']
  else if c = '\x0c' then ['\\', 'f']
  else if c = '\x08' then ['\\', 'b']
  else if n < 0x20 then unitEscape n
  else if n < 0x7F ∨ ascii = false then [c]
  else if n < 0x10000 then unitEscape n
  else
    unitEscape (0xD800 + (n - 0x10000) / 0x400) ++ unitEscape (0xDC00 + (n - 0x10000) % 0x400)

def writeString (ascii : Bool) (s : String) : List Char :=
  '"' :: s.toList.flatMap (writeChar ascii) ++ ['"']

mutual

/-- The characters of a value that stands at a level of indentation. -/
def write (style : Style) (level : Nat) : Json → List Char
  | .null => "null".toList
  | .boolean value => if value then "true".toList else "false".toList
  | .integer value => (toString value).toList
  | .number value => (Layout.document.text value).toList
  | .string value => writeString style.ascii value
  | .array [] => ['[', ']']
  | .array (first :: rest) =>
    '[' :: (style.newline (level + 1) ++ write style (level + 1) first ++
      writeItems style (level + 1) rest ++ style.newline level ++ [']'])
  | .object [] => ['{', '}']
  | .object ((key, value) :: rest) =>
    '{' :: (style.newline (level + 1) ++ writeString style.ascii key ++ style.keySeparator ++
      write style (level + 1) value ++ writeMembers style (level + 1) rest ++
      style.newline level ++ ['}'])

/-- The items behind the first. -/
def writeItems (style : Style) (level : Nat) : List Json → List Char
  | [] => []
  | item :: rest =>
    style.itemSeparator ++ style.newline level ++ write style level item ++
      writeItems style level rest

/-- The members behind the first. -/
def writeMembers (style : Style) (level : Nat) : List (String × Json) → List Char
  | [] => []
  | (key, value) :: rest =>
    style.itemSeparator ++ style.newline level ++ writeString style.ascii key ++
      style.keySeparator ++ write style level value ++ writeMembers style level rest

end

/-- The text of a document. -/
def text (style : Style) (document : Json) : String := String.ofList (document.write style 0)

end KeyTree.Json
