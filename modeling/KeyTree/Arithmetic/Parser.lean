import KeyTree.Arithmetic.Program

/-!
# Reading arithmetic expressions

The grammar has sums of products of signed primaries, and operators of one level group to the left.
The reader takes one token at a time. Between two tokens it knows what is open on each level of
parentheses: the left operand of a sum, the left operand of a product, and signs. So a token that
cannot stand where it stands is refused at once.
-/

namespace KeyTree.Arithmetic

/-- A left operand and the operator behind it. -/
abbrev Pending := Option (Operator × Program)

def Pending.complete : Pending → Program → Program
  | none, right => right
  | some (op, left), right => .binary op left right

/-- What is open in front of an operand, within one level of parentheses. -/
structure Level where
  sum : Pending
  product : Pending
  /-- The signs in front of the operand, the innermost first; `true` for a minus. -/
  signs : List Bool

namespace Level

def fresh : Level := ⟨none, none, []⟩

/-- One more sign in front of the operand. -/
def signed (minus : Bool) (level : Level) : Level := { level with signs := minus :: level.signs }

/-- The product that a primary completes. -/
def complete (level : Level) (primary : Program) : Program :=
  Pending.complete level.product
    (level.signs.foldl (fun p minus ↦ if minus then .negate p else p) primary)

end Level

/-- An open parenthesis: where it stands, and what is open in front of it. -/
structure Parenthesis where
  level : Level
  position : Nat

/-- How deep an operand nests behind these signs and parentheses. A sign adds one, and a parenthesis
adds the sum, the product, the signed operand and the primary that it stands for. -/
def nesting (level : Level) (outer : List Parenthesis) : Nat :=
  outer.foldl (fun depth parenthesis ↦ depth + parenthesis.level.signs.length + 4)
    level.signs.length

/-- What is known between two tokens. The innermost open parenthesis comes first. -/
inductive State where
  /-- An operand has to follow. -/
  | operand (level : Level) (outer : List Parenthesis)
  /-- A product is complete. An operator, a closing parenthesis or the end may follow. -/
  | operator (sum : Pending) (product : Program) (outer : List Parenthesis)

namespace State

def start : State := operand .fresh []

/-- The fault of a token, or of the end, that follows a product where it cannot stand. -/
def refusal (outer : List Parenthesis) (atTop : Fault) : Fault :=
  match outer with
  | [] => atTop
  | innermost :: _ => .unbalanced innermost.position

/-- The state behind a token. `room` is how many calls fit on the stack. -/
def next (room : Nat) (state : State) (token : Token) : Except Fault State :=
  match state, token.lexeme with
  | operand level outer, .number numeral =>
    .ok (operator level.sum (level.complete (.literal numeral.toFloat)) outer)
  | operand level outer, .opening => deeper .fresh (⟨level, token.position⟩ :: outer)
  | operand level outer, .operator .add => deeper (level.signed false) outer
  | operand level outer, .operator .subtract => deeper (level.signed true) outer
  | operand _ _, _ => .error (.unexpectedToken token)
  | operator sum product outer, .operator op =>
    if op.isAdditive then .ok (operand ⟨some (op, sum.complete product), none, []⟩ outer)
    else .ok (operand ⟨sum, some (op, product), []⟩ outer)
  | operator sum product (innermost :: outer), .closing =>
    .ok (operator innermost.level.sum (innermost.level.complete (sum.complete product)) outer)
  | operator _ _ outer, _ => .error (refusal outer (.unexpectedToken token))
where
  deeper (level : Level) (outer : List Parenthesis) : Except Fault State :=
    if nesting level outer ≤ room then .ok (operand level outer) else .error .tooDeep

def finish : State → Except Fault Program
  | operand _ _ => .error .unexpectedEnd
  | operator sum product [] => .ok (sum.complete product)
  | operator _ _ (innermost :: _) => .error (.unbalanced innermost.position)

/-- Reads the tokens that are left. -/
def run (room : Nat) (state : State) : List Token → Except Fault Program
  | [] => state.finish
  | token :: rest => state.next room token >>= fun state ↦ run room state rest

end State

/-- The program of a list of tokens, read with room for so many calls. -/
def parseTokens (room : Nat) : List Token → Except Fault Program
  | [] => .error .empty
  | tokens => State.start.run room tokens

/-- The program of a source, read with room for so many calls. -/
def parse (room : Nat) (source : String) : Except Fault Program :=
  tokens source >>= parseTokens room

end KeyTree.Arithmetic
