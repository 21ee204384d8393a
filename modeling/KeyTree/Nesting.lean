
/-!
# How deep things may nest

Formulas, documents, records and trees are gone through by calls one inside the other, and no more of
them fit on the stack than `callLimit`. An operation that would need more is refused. What is charged
to an operation is the number of its calls that are open at a time; calls that are open before it
begins are not counted.
-/

namespace KeyTree

/-- How many calls fit on the stack, one inside the other. -/
def callLimit : Nat := 975

/-- The highest tree that becomes records. Two calls for each level fit. -/
def encodingLimit : Nat := 490

/-- The highest tree that records become. They take a few calls more than making them does, so there
are trees that become records which are not read again. -/
def decodingLimit : Nat := 487

/-- The deepest document that becomes a tree. Three calls for each level fit. -/
def importLimit : Nat := 325

end KeyTree
