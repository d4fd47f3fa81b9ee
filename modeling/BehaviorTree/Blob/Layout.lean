import BehaviorTree.Error
import BehaviorTree.PlainData

/-!
The flat form of a tree: nodes in pre-order, each with a type, the index after its last descendant and
a span of the common data words. `Layout.validate` says which arrays are such a form; reading arrays
that are not may leave them, so every read is checked.
-/
namespace BehaviorTree

/-- Every node's data starts at a multiple of this. -/
def dataAlign : Nat := 8

/-- The least multiple of `align` from `n` on. -/
def alignUp (n align : Nat) : Nat := (n + (align - 1)) / align * align

theorem le_alignUp (n : Nat) {align : Nat} (h : 0 < align) : n ≤ alignUp n align := by
  unfold alignUp
  have := Nat.div_add_mod (n + (align - 1)) align
  have hlt := Nat.mod_lt (n + (align - 1)) h
  rw [Nat.mul_comm] at this
  omega

/-- The arrays of a flat tree, not yet checked. -/
structure Layout where
  types : Array TypeId
  ends : Array UInt32
  offsets : Array UInt32
  sizes : Array UInt32
  words : Array UInt64
  deriving DecidableEq, Repr

def Defect.fault (d : Defect) : Fault := .error (.malformed d)

namespace Layout

def size (l : Layout) : Nat := l.types.size

/-- The number of bytes in the data words. -/
def regionSize (l : Layout) : Nat := dataAlign * l.words.size

def typeOf (l : Layout) (i : Nat) : Checked TypeId := .ofOption l.types[i]?

/-- The first index after the subtree of node `i`. -/
def endOf (l : Layout) (i : Nat) : Checked Nat := .ofOption (l.ends[i]?.map UInt32.toNat)

def offsetOf (l : Layout) (i : Nat) : Checked Nat := .ofOption (l.offsets[i]?.map UInt32.toNat)

def sizeOf (l : Layout) (i : Nat) : Checked Nat := .ofOption (l.sizes[i]?.map UInt32.toNat)

/-! ## Validity -/

/-- Children from `child` on tile the range up to `stop`. A step moves forward, so `room` steps do
when `stop ≤ child + room`. -/
def checkTiling (l : Layout) (parent stop : Nat) : (room child : Nat) → Checked Unit
  | 0, _ => .ok ()
  | room + 1, child =>
    if child < stop then do
      let childStop ← l.endOf child
      if childStop ≤ child ∨ stop < childStop then
        throw (Defect.childEnd child parent childStop stop).fault
      checkTiling l parent stop room childStop
    else .ok ()

def checkSpan (l : Layout) (i : Nat) : Checked Unit := do
  let offset ← l.offsetOf i
  let size ← l.sizeOf i
  if offset % dataAlign ≠ 0 then throw (Defect.unaligned i offset).fault
  if l.regionSize < offset + size then
    throw (Defect.beyondRegion i offset (offset + size) l.regionSize).fault
  if i + 1 < l.offsets.size then
    let next ← l.offsetOf (i + 1)
    if next < offset + size then throw (Defect.overlap i offset (offset + size) next).fault

def checkNode (l : Layout) (i : Nat) : Checked Unit := do
  let stop ← l.endOf i
  if stop ≤ i ∨ l.size < stop then throw (Defect.endIndex i stop l.size).fault
  l.checkSpan i
  l.checkTiling i stop (stop - (i + 1)) (i + 1)

/-- Accepts the arrays that lay out a tree in pre-order, with aligned data spans that lie in the words
and follow one another without overlap. -/
def validate (l : Layout) : Checked Unit := do
  if l.size = 0 then throw Defect.empty.fault
  if l.ends.size ≠ l.size ∨ l.offsets.size ≠ l.size ∨ l.sizes.size ≠ l.size then
    throw (Defect.lengths l.size l.ends.size l.offsets.size l.sizes.size).fault
  let stop ← l.endOf 0
  if stop ≠ l.size then throw (Defect.rootEnd stop l.size).fault
  (List.range l.size).forM l.checkNode

/-! ## Reading -/

/-- Byte `k` of the data words, each word with its least byte first. -/
def byteAt (l : Layout) (k : Nat) : UInt8 :=
  UInt8.ofNat ((l.words.getD (k / dataAlign) 0).toNat / Bytes.bound (k % dataAlign))

/-- The default data from byte `start` on. -/
def slice (l : Layout) (start len : Nat) : Checked (Bytes len) :=
  if start + len ≤ l.regionSize then
    .ok ⟨(List.range' start len).map l.byteAt, by simp⟩
  else .error .outOfBounds

def defaultBytes (l : Layout) (i : Nat) : Checked (List UInt8) := do
  return (← l.slice (← l.offsetOf i) (← l.sizeOf i)).1

def defaultValue (l : Layout) (t : ValueType) (i : Nat) : Checked t.Value := do
  let size ← l.sizeOf i
  if size = 0 then Checked.fail (.unallocatedData i)
  else if size < t.size then Checked.fail (.dataOutOfBounds i 0 t.size size)
  else l.slice (← l.offsetOf i) t.size

/-- The byte range from the data of node `i` to that of its last descendant. -/
def subtreeSpan (l : Layout) (i : Nat) : Checked (Nat × Nat) := do
  let stop ← l.endOf i
  if stop = 0 then throw .outOfBounds
  let start ← l.offsetOf i
  return (start, (← l.offsetOf (stop - 1)) + (← l.sizeOf (stop - 1)))

/-- The nodes met by jumping from `child` over one subtree at a time up to `stop`. -/
def siblings (l : Layout) (stop : Nat) : (room child : Nat) → Checked (List Nat)
  | 0, _ => .ok []
  | room + 1, child =>
    if child < stop then do
      let next ← l.endOf child
      return child :: (← siblings l stop room next)
    else .ok []

def children (l : Layout) (i : Nat) : Checked (List Nat) := do
  let stop ← l.endOf i
  l.siblings stop (stop - (i + 1)) (i + 1)

def childCount (l : Layout) (i : Nat) : Checked Nat := return (← l.children i).length

/-- The depths of the nodes from `i` on, where `opened` holds the end indices of the subtrees that may
still be open, innermost first. -/
def depthsFrom (l : Layout) : (count i : Nat) → (opened : List Nat) → Checked (List Nat)
  | 0, _, _ => .ok []
  | count + 1, i, opened => do
    let opened := opened.dropWhile (· ≤ i)
    let stop ← l.endOf i
    return opened.length :: (← depthsFrom l count (i + 1) (stop :: opened))

/-- The number of ancestors of every node, in pre-order. -/
def depths (l : Layout) : Checked (List Nat) := l.depthsFrom l.size 0 []

end Layout

/-- A valid layout. -/
structure Blob extends Layout where
  valid : toLayout.validate = .ok ()
  deriving DecidableEq

def Layout.toBlob (l : Layout) : Checked Blob :=
  match h : l.validate with
  | .ok () => .ok ⟨l, h⟩
  | .error e => .error e

end BehaviorTree
