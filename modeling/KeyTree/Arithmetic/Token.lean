import KeyTree.Number.Numeral
import KeyTree.Text.Quoted

/-!
# Arithmetic tokens

A source is split into numerals, the five operators and parentheses. Blanks may stand anywhere
between them. A token keeps the place where it starts, counted in characters.
-/

namespace KeyTree.Arithmetic

inductive Operator where
  | add
  | subtract
  | multiply
  | divide
  | remainder
  deriving DecidableEq

namespace Operator

def symbol : Operator → Char
  | add => '+'
  | subtract => '-'
  | multiply => '*'
  | divide => '/'
  | remainder => '%'

/-- The operators that bind less tightly. -/
def isAdditive : Operator → Bool
  | add | subtract => true
  | multiply | divide | remainder => false

end Operator

inductive Lexeme where
  | number (numeral : Numeral)
  | operator (op : Operator)
  | opening
  | closing
  deriving DecidableEq

namespace Lexeme

def text : Lexeme → List Char
  | number numeral => numeral.text
  | operator op => [op.symbol]
  | opening => ['(']
  | closing => [')']

def isNumber : Lexeme → Bool
  | number _ => true
  | _ => false

/-- The lexeme of one character. -/
def ofChar? : Char → Option Lexeme
  | '+' => some (operator .add)
  | '-' => some (operator .subtract)
  | '*' => some (operator .multiply)
  | '/' => some (operator .divide)
  | '%' => some (operator .remainder)
  | '(' => some opening
  | ')' => some closing
  | _ => none

end Lexeme

structure Token where
  lexeme : Lexeme
  position : Nat
  deriving DecidableEq

def Token.text (t : Token) : String := String.ofList t.lexeme.text

/-- Why a source is no arithmetic expression, or why it has no value. -/
inductive Fault where
  | empty
  | unexpectedEnd
  | unexpectedCharacter (c : Char) (position : Nat)
  | unexpectedToken (token : Token)
  | unbalanced (position : Nat)
  | tooDeep
  deriving DecidableEq

def Fault.message : Fault → String
  | empty => "Empty expression"
  | unexpectedEnd => "Unexpected end of expression"
  | unexpectedCharacter c position =>
    s!"Unexpected character {Text.quoted (String.singleton c)} at position {position}"
  | unexpectedToken token => s!"Unexpected {Text.quoted token.text} at position {token.position}"
  | unbalanced position => s!"Unbalanced parentheses: '(' at position {position}"
  | tooDeep => "Expression is nested too deeply"

/-- The tokens of a source whose first character has the given position. -/
def tokensFrom (position : Nat) (s : List Char) : Except Fault (List Token) :=
  match s with
  | [] => .ok []
  | c :: rest =>
    if Text.isBlank c then tokensFrom (position + 1) rest
    else match h : Numeral.scan? (c :: rest) with
      | some (numeral, after) =>
        have : after.length < (c :: rest).length := Numeral.length_lt_of_scan? h
        (tokensFrom (position + numeral.text.length) after).map (⟨.number numeral, position⟩ :: ·)
      | none => match Lexeme.ofChar? c with
        | some lexeme => (tokensFrom (position + 1) rest).map (⟨lexeme, position⟩ :: ·)
        | none => .error (.unexpectedCharacter c position)
termination_by s.length
decreasing_by
  · exact Nat.lt_add_one _
  · exact this
  · exact Nat.lt_add_one _

def tokens (source : String) : Except Fault (List Token) := tokensFrom 0 source.toList

end KeyTree.Arithmetic
