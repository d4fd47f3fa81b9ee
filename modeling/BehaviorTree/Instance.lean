import BehaviorTree.Blob.Layout
import BehaviorTree.Bytes.Buffer

/-!
The mutable part of a running tree: one memory that holds the data of all nodes, the last result
recorded for every node, a tick counter and the nesting depth of the ticks in progress.
-/
namespace BehaviorTree

/-- Where the memory of an instance starts. It is allocated as words of eight bytes. -/
structure Address where
  toNat : Nat
  aligned : dataAlign ∣ toNat

instance : Inhabited Address := ⟨0, dataAlign.dvd_zero⟩

/-- The state of one run of the tree `b`. A node without a recorded result is inactive. -/
structure Instance (b : Blob) where
  data : Buffer b.regionSize
  states : Vector (Option Status) b.size
  tick : UInt64
  depth : Nat
  deriving DecidableEq

namespace Instance

variable {b : Blob}

/-- The default data of all nodes. -/
def defaults (b : Blob) : Buffer b.regionSize := .ofFn fun k => b.byteAt k

/-- Default data, all nodes inactive, nothing ticked. -/
def new (b : Blob) : Instance b where
  data := defaults b
  states := .replicate b.size none
  tick := 0
  depth := 0

def contains (_ : Instance b) (i : Nat) : Bool := i < b.size

/-! ## Data -/

def bytes (s : Instance b) (i : Nat) : Checked (List UInt8) := do
  return (← s.data.slice (← b.offsetOf i) (← b.sizeOf i)).1

/-- Replaces the data of node `i` from its first byte on. -/
def putBytes (s : Instance b) (i : Nat) (bs : List UInt8) : Checked (Instance b) := do
  let offset ← b.offsetOf i
  let size ← b.sizeOf i
  if bs.length = size then
    return { s with data := ← s.data.overwrite offset bs }
  else throw .outOfBounds

def fill (s : Instance b) (i : Nat) (byte : UInt8) : Checked (Instance b) := do
  s.putBytes i (List.replicate (← b.sizeOf i) byte)

/-- Where `len` bytes at `offset` in the data of node `i` start in the memory. -/
def locate (_ : Instance b) (i offset len : Nat) : Checked Nat := do
  if b.size ≤ i then Checked.fail (.nodeOutOfRange i b.size)
  else
    let size ← b.sizeOf i
    if size = 0 then Checked.fail (.unallocatedData i)
    else if size < offset + len then Checked.fail (.dataOutOfBounds i offset len size)
    else return (← b.offsetOf i) + offset

def readAt (s : Instance b) (t : ValueType) (i offset : Nat) : Checked t.Value := do
  s.data.slice (← s.locate i offset t.size) t.size

/-- Like `locate`, for writing: the place must be aligned for `t`, counted from the start of the memory and
also as an address. Only a type that needs more than the alignment of words can miss the second. -/
def place (s : Instance b) (t : ValueType) (i offset : Nat) (a : Address) : Checked Nat := do
  let start ← s.locate i offset t.size
  if start % t.align ≠ 0 then Checked.fail (.misaligned i offset t.name)
  else if (a.toNat + start) % t.align ≠ 0 then Checked.fail (.misaligned i offset t.name)
  else return start

def writeAt (s : Instance b) {t : ValueType} (i offset : Nat) (v : t.Value) (a : Address) :
    Checked (Instance b) := do
  return { s with data := ← s.data.overwrite (← s.place t i offset a) v.1 }

def modifyAt (s : Instance b) (t : ValueType) (i offset : Nat) (f : t.Value → t.Value) (a : Address) :
    Checked (Instance b) := do
  let start ← s.place t i offset a
  return { s with data := ← s.data.overwrite start (f (← s.data.slice start t.size)).1 }

/-- Puts the default data back from `start` to `stop`. -/
def restoreSpan (s : Instance b) (start stop : Nat) : Checked (Instance b) := do
  if stop < start then throw .outOfBounds
  let bs ← b.slice start (stop - start)
  return { s with data := ← s.data.overwrite start bs.1 }

/-- Restores the default data of node `i`, and of no other node. -/
def restore (s : Instance b) (i : Nat) : Checked (Instance b) := do
  let offset ← b.offsetOf i
  s.restoreSpan offset (offset + (← b.sizeOf i))

/-! ## Recorded results -/

def state (s : Instance b) (i : Nat) : Checked (Option Status) := .ofOption s.states[i]?

def setState (s : Instance b) (i : Nat) (r : Status) : Checked (Instance b) :=
  if i < b.size then .ok { s with states := s.states.setIfInBounds i (some r) }
  else .error .outOfBounds

def clearStates (s : Instance b) (start stop : Nat) : Checked (Instance b) :=
  if start ≤ stop ∧ stop ≤ b.size then
    .ok { s with states := s.states.mapFinIdx fun i r _ => if start ≤ i ∧ i < stop then none else r }
  else .error .outOfBounds

/-- Restores the default data of the subtree of node `i` and makes it inactive. -/
def resetSubtree (s : Instance b) (i : Nat) : Checked (Instance b) := do
  let (start, stop) ← b.subtreeSpan i
  let s ← s.restoreSpan start stop
  s.clearStates i (← b.endOf i)

/-- Back to a new instance, but for the tick counter. -/
def resetAll (s : Instance b) : Instance b := { new b with tick := s.tick }

/-! ## Counters -/

/-- Counts a tick; the counter wraps around. -/
def advance (s : Instance b) : Instance b := { s with tick := s.tick + 1 }

def enter (s : Instance b) : Instance b := { s with depth := s.depth + 1 }

def leave (s : Instance b) : Instance b := { s with depth := s.depth - 1 }

end Instance
end BehaviorTree
