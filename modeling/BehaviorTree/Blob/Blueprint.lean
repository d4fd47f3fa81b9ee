import BehaviorTree.Blob.Layout

/-! Trees as they are authored, and their flat form. -/
namespace BehaviorTree

/-- A tree of node types with the default data of every node. -/
inductive Blueprint where
  | node (type : TypeId) (data : List UInt8) (children : List Blueprint)
  deriving Inhabited

namespace Blueprint

/-- A node without data or children. -/
def leaf (type : TypeId) : Blueprint := node type [] []

mutual

def size : Blueprint → Nat
  | node _ _ children => 1 + sizeAll children

def sizeAll : List Blueprint → Nat
  | [] => 0
  | t :: ts => t.size + sizeAll ts

end

end Blueprint

/-- A number as 32 bits, if it fits. -/
def Quantity.fit (what : Quantity) (n : Nat) : Except Error UInt32 :=
  if n < UInt32.size then .ok (UInt32.ofNat n) else .error (.malformed (.tooLarge what n))

/-- A layout in the making: its data still as bytes. -/
structure Draft where
  types : Array TypeId
  ends : Array UInt32
  offsets : Array UInt32
  sizes : Array UInt32
  bytes : Array UInt8

namespace Draft

def empty : Draft := ⟨#[], #[], #[], #[], #[]⟩

/-- Adds one node, its data aligned and its end still open. -/
def openNode (d : Draft) (type : TypeId) (data : List UInt8) : Except Error Draft := do
  let start := alignUp d.bytes.size dataAlign
  return {
    types := d.types.push type
    ends := d.ends.push 0
    offsets := d.offsets.push (← Quantity.dataRegion.fit start)
    sizes := d.sizes.push (← Quantity.nodeData.fit data.length)
    bytes := d.bytes ++ Array.replicate (start - d.bytes.size) 0 ++ data.toArray }

/-- Sets the end of node `i` after the nodes so far. -/
def closeNode (d : Draft) (i : Nat) : Except Error Draft := do
  return { d with ends := d.ends.setIfInBounds i (← Quantity.nodeCount.fit d.types.size) }

mutual

/-- Adds a tree in pre-order. -/
def add (d : Draft) : Blueprint → Except Error Draft
  | .node type data children => do
    let d' ← d.openNode type data
    let d' ← d'.addAll children
    d'.closeNode d.types.size

def addAll (d : Draft) : List Blueprint → Except Error Draft
  | [] => .ok d
  | t :: ts => do
    let d ← d.add t
    d.addAll ts

end

/-- The word of the eight bytes from `k` on; missing bytes are zero. -/
def wordAt (bytes : Array UInt8) (k : Nat) : UInt64 :=
  UInt64.ofNat (LittleEndian.decode ((List.range' k dataAlign).map fun j => bytes.getD j 0))

def toLayout (d : Draft) : Layout where
  types := d.types
  ends := d.ends
  offsets := d.offsets
  sizes := d.sizes
  words := .ofFn fun k : Fin ((d.bytes.size + (dataAlign - 1)) / dataAlign) =>
    wordAt d.bytes (dataAlign * k)

end Draft

def Blueprint.build (t : Blueprint) : Checked Blob := do
  let d ← Checked.ofExcept (Draft.empty.add t)
  d.toLayout.toBlob

end BehaviorTree
