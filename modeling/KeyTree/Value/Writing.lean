import KeyTree.Nesting
import KeyTree.Number.Whole
import KeyTree.Value.Coercion

/-!
# Writing values out

A raw value is written out when it becomes a text, and when a message shows it. The calls for that
have to fit on the stack, and no integer of more than 4300 digits is written.
-/

namespace KeyTree

/-- A limit that is reached: of calls one inside the other, or of the digits of an integer. -/
inductive LimitFault where
  | tooDeep
  | tooManyDigits
  deriving DecidableEq

/-- Nothing is said about the stack. -/
def LimitFault.message : LimitFault → String
  | tooDeep => ""
  | tooManyDigits => s!"Exceeds the limit ({TooManyDigits.limit} digits) for integer string " ++
      "conversion; use sys.set_int_max_str_digits() to increase the limit"

/-- Why a value is not taken, or a tree not changed. -/
inductive ChangeFault where
  | refused (fault : EditFault)
  | limit (fault : LimitFault)

/-- The fault of an integer that is written. -/
def LimitFault.ofInteger? (value : Int) : Option LimitFault :=
  if value.natAbs < Nat.pow 10 TooManyDigits.limit then none else some .tooManyDigits

/-- The fault of a key that is written. -/
def Key.writingFault? : Key → Option LimitFault
  | integer value => LimitFault.ofInteger? value
  | _ => none

namespace Raw

mutual

/-- The first limit that is reached when a value is written with room for so many calls. A list or a
dictionary takes one, and a node seven for each level. -/
def writingFault? (room : Nat) : Raw → Option LimitFault
  | integer value => LimitFault.ofInteger? value
  | list items => if room = 0 then some .tooDeep else itemsFault? (room - 1) items
  | dictionary entries => if room = 0 then some .tooDeep else entriesFault? (room - 1) entries
  | node value => if 7 * value.height ≤ room then none else some .tooDeep
  | null | boolean _ | number _ | text _ => none

def itemsFault? (room : Nat) : List Raw → Option LimitFault
  | [] => none
  | item :: rest => (writingFault? room item).or (itemsFault? room rest)

def entriesFault? (room : Nat) : List (Key × Raw) → Option LimitFault
  | [] => none
  | (key, value) :: rest =>
    (key.writingFault?.or (writingFault? room value)).or (entriesFault? room rest)

end

end Raw

namespace Kind

/-- Whether a raw value is written out when it is to become a payload: as a text, or because it is
refused. -/
def writes (kind : Kind) (raw : Raw) : Bool :=
  kind == .text || kind == .expression || !(kind.coerce raw).isOk

/-- The payload of a kind that a raw value stands for, with room for so many calls. -/
def boundedCoerce (room : Nat) (kind : Kind) (raw : Raw) : Except ChangeFault (Payload Node) :=
  match if kind.writes raw then raw.writingFault? room else none with
  | some fault => .error (.limit fault)
  | none => (kind.coerce raw).mapError .refused

end Kind

/-- The payload of a named kind that a raw value stands for, with room for so many calls. -/
def boundedCoerce (room : Nat) (kindName : String) (raw : Raw) :
    Except ChangeFault (Payload Node) :=
  match Kind.ofName? kindName with
  | some kind => kind.boundedCoerce room raw
  | none => (coerce kindName raw).mapError .refused

end KeyTree
