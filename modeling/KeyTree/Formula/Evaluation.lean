import KeyTree.Arithmetic.Cache
import KeyTree.Formula.Reference

/-!
# Evaluating formulas

A formula without references is a text. With references filled in, it is computed if it looks like
arithmetic: it has an operator or a parenthesis or is a number, and it holds nothing but digits,
points, operators other than the remainder, parentheses and blanks. Any other text is the result as
it is. A reference that leads nowhere, and arithmetic that cannot be read, are results too.
-/

namespace KeyTree

/-- What a formula comes to. -/
inductive Evaluation where
  | text (value : String)
  | number (value : Float)
  | failure (message : String)
  deriving DecidableEq

/-- Why an evaluation does not come to any result. Nothing is said about what nests too deeply. -/
inductive EvaluationFault where
  | tooManyDigits (fault : TooManyDigits)
  | noRoom
  /-- A container that is referred to nests too deeply. -/
  | tooDeep
  deriving DecidableEq

def EvaluationFault.message : EvaluationFault → String
  | tooManyDigits fault => fault.message
  | noRoom => Arithmetic.CacheFault.noRoom.message
  | tooDeep => ""

namespace Evaluation

/-- What is shown in place of the value of a formula that fails. -/
def failureText : String := "ERR"

def missing (path : String) : Evaluation := failure s!"Key not found: {path}"

/-- The text of a result. -/
def shown : Evaluation → String
  | text value => value
  | number value => Number.shown value
  | failure _ => failureText

end Evaluation

namespace Formula

/-- Marks of arithmetic: operators and parentheses. -/
def isMark (c : Char) : Bool :=
  c == '+' || c == '-' || c == '*' || c == '/' || c == '%' || c == '(' || c == ')'

/-- Characters that may be computed with. -/
def isArithmeticChar (c : Char) : Bool :=
  Text.isPlainDigit c || c == '.' || (isMark c && c != '%') || Text.isBlank c

/-- A number, or nothing but blanks. -/
def looksNumeric (s : List Char) : Bool :=
  s.all Text.isBlank || (Number.read? (String.ofList s)).isSome

/-- Whether a filled-in formula is computed. -/
def isArithmetic (s : List Char) : Bool :=
  (s.any isMark || looksNumeric s) && !s.isEmpty && s.all isArithmeticChar

/-- What a filled-in formula comes to. -/
def settle (cache : Arithmetic.Cache) (filled : List Char) :
    Except EvaluationFault Evaluation × Arithmetic.Cache :=
  let text := String.ofList filled
  if isArithmetic filled then
    let (value, cache) := cache.evaluate callLimit text
    match value with
    | .ok x => (.ok (.number x), cache)
    | .error (.arithmetic fault) => (.ok (.failure fault.message), cache)
    | .error .noRoom => (.error .noRoom, cache)
  else (.ok (.text text), cache)

/-- Evaluates a formula against a tree. -/
def evaluate (cache : Arithmetic.Cache) (root : Forest) (formula : String) :
    Except EvaluationFault Evaluation × Arithmetic.Cache :=
  let parts := pieces formula.toList
  if parts.any Piece.isReference then
    match fill root parts with
    | .ok filled => settle cache filled
    | .error (.missing path) => (.ok (.missing path), cache)
    | .error (.tooManyDigits fault) => (.error (.tooManyDigits fault), cache)
    | .error .tooDeep => (.error .tooDeep, cache)
  else (.ok (.text formula), cache)

/-- How many programs an evaluation on its own may hold. -/
def defaultCapacity : Nat := 256

/-- Evaluates a formula on its own. -/
def evaluateOnce (root : Forest) (formula : String) : Except EvaluationFault Evaluation :=
  (evaluate (.ofCapacity defaultCapacity) root formula).1

end Formula

/-- The text shown for a node: a formula is computed, and a container tells how much it holds. -/
def Node.display (cache : Arithmetic.Cache) (root : Forest) (n : Node) :
    Except EvaluationFault String × Arithmetic.Cache :=
  match n.payload with
  | .leaf (.expression formula) =>
    let (result, cache) := Formula.evaluate cache root formula
    (result.map Evaluation.shown, cache)
  | .leaf value => (.ok value.rendered, cache)
  | .branch _ children => (.ok s!"{children.length} items", cache)

end KeyTree
