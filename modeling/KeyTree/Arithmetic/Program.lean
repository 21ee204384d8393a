import KeyTree.Arithmetic.Token

/-!
# Arithmetic programs and their values

All numbers are doubles. A division by zero gives an infinity, or no number for zero by zero, and the
remainder belongs to the division that rounds toward zero.
-/

namespace KeyTree.Arithmetic

inductive Program where
  | literal (value : Float)
  | negate (operand : Program)
  | binary (op : Operator) (left right : Program)
  deriving DecidableEq

def Operator.apply (op : Operator) (a b : Float) : Float :=
  match op with
  | .add => a + b
  | .subtract => a - b
  | .multiply => a * b
  | .divide => a / b
  | .remainder => Quanta.remainder a b

namespace Program

def depth : Program → Nat
  | literal _ => 1
  | negate operand => operand.depth + 1
  | binary _ left right => max left.depth right.depth + 1

/-- The value, whatever the depth. -/
def value : Program → Float
  | literal x => x
  | negate operand => -operand.value
  | binary op left right => op.apply left.value right.value

/-- The value of a program, if there is room for as many calls as it is deep. -/
def evaluate (room : Nat) (p : Program) : Except Fault Float :=
  if p.depth ≤ room then .ok p.value else .error .tooDeep

end Program

end KeyTree.Arithmetic
