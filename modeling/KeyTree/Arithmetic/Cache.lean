import KeyTree.Arithmetic.Parser

/-!
# Programs used before

A cache holds the programs of the sources used last, so that they are not read again. A source that
is no expression is not held, and the source that has not been used for longest gives way. A program
that is held was read by an earlier call, which may have had more room on the stack.
-/

namespace KeyTree.Arithmetic

/-- Programs by source, the one used last first, and how many are held at most. -/
structure Cache where
  capacity : Nat
  recent : List (String × Program)

/-- Why a program cannot be had, or has no value. -/
inductive CacheFault where
  | arithmetic (fault : Fault)
  /-- The cache holds nothing at all. -/
  | noRoom
  deriving DecidableEq

def CacheFault.message : CacheFault → String
  | arithmetic fault => fault.message
  | noRoom => "value too large"

/-- A cache cannot hold fewer programs than none. -/
inductive CapacityFault where
  | negative
  deriving DecidableEq

def CapacityFault.message : CapacityFault → String
  | negative => "maxsize must be non-negative"

namespace Cache

def ofCapacity (capacity : Nat) : Cache := ⟨capacity, []⟩

/-- A cache for a number of programs that may turn out to be negative. -/
def ofInt (capacity : Int) : Except CapacityFault Cache :=
  if capacity < 0 then .error .negative else .ok (ofCapacity capacity.toNat)

def size (cache : Cache) : Nat := cache.recent.length

def contains (cache : Cache) (source : String) : Bool :=
  cache.recent.any fun entry ↦ entry.1 == source

def get? (cache : Cache) (source : String) : Option Program :=
  (cache.recent.find? fun entry ↦ entry.1 == source).map (·.2)

/-- Makes a source the one used last. -/
def use (cache : Cache) (source : String) (program : Program) : Cache :=
  let others := cache.recent.filter fun entry ↦ entry.1 != source
  { cache with recent := ((source, program) :: others).take cache.capacity }

/-- The program of a source, from the cache or read anew with room for so many calls. -/
def program (room : Nat) (cache : Cache) (source : String) : Except CacheFault Program × Cache :=
  match cache.get? source with
  | some program => (.ok program, cache.use source program)
  | none => match parse room source with
    | .error fault => (.error (.arithmetic fault), cache)
    | .ok program =>
      if cache.capacity = 0 then (.error .noRoom, cache)
      else (.ok program, cache.use source program)

/-- The value of a source. A program whose evaluation fails stays in the cache. The program is had by
a call inside this one, so there is room for one call less. -/
def evaluate (room : Nat) (cache : Cache) (source : String) : Except CacheFault Float × Cache :=
  let (program, cache) := cache.program (room - 1) source
  (program >>= fun p ↦ (p.evaluate room).mapError .arithmetic, cache)

end Cache

end KeyTree.Arithmetic
