import KeyTree.Number.Written
import KeyTree.Tree.Node

/-!
# New identities

A new identity is the hexadecimal form of a counter, so that no two of one supply are equal.
-/

namespace KeyTree

/-- The identities that have not been given out: those of `next` and of all numbers above it. -/
structure Supply where
  next : Nat
  deriving DecidableEq

namespace Supply

def idOf (n : Nat) : String := String.ofList (Layout.padded 32 (Nat.toDigits 16 n))

/-- The identity to give out next. -/
def id (supply : Supply) : String := idOf supply.next

/-- The supply after a number of identities have been given out. -/
def skip (supply : Supply) (count : Nat) : Supply := ⟨supply.next + count⟩

mutual

/-- Gives every node below and including this one an identity, from the top down and in order. -/
def label (supply : Supply) : Node → Node × Supply
  | ⟨_, name, .leaf value⟩ => (⟨supply.id, name, .leaf value⟩, supply.skip 1)
  | ⟨_, name, .branch shape children⟩ =>
    let (children, rest) := labelAll (supply.skip 1) children
    (⟨supply.id, name, .branch shape children⟩, rest)

def labelAll (supply : Supply) : List Node → List Node × Supply
  | [] => ([], supply)
  | n :: ns =>
    let (n, supply) := label supply n
    let (ns, supply) := labelAll supply ns
    (n :: ns, supply)

end

end Supply

end KeyTree
