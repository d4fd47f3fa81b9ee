import BehaviorTree.Blob.Blueprint

/-!
The data bytes of one node under construction: a head of fixed size, then payloads, each at an aligned
offset. A payload never starts at offset 0, so 0 can mark a missing one.
-/
namespace BehaviorTree

/-- Node data: the head is its first `headSize` bytes. -/
structure NodeData where
  bytes : List UInt8
  headSize : Nat
  headSize_le : headSize ≤ bytes.length := by simp

namespace NodeData

def empty : NodeData := { bytes := [], headSize := 0 }

/-- Data that consists of a head. -/
def ofHead {t : ValueType} (head : t.Value) : NodeData where
  bytes := head.1
  headSize := t.size
  headSize_le := by simp [head.2]

def size (d : NodeData) : Nat := d.bytes.length

def isEmpty (d : NodeData) : Bool := d.bytes.isEmpty

/-- The offset of the next payload of type `t`. -/
def nextOffset (d : NodeData) (t : ValueType) : Nat := alignUp (max d.size 1) t.align

/-- Adds a payload; the result is its offset and the longer data. -/
def alloc (d : NodeData) {t : ValueType} (payload : t.Value) : Except Error (UInt32 × NodeData) := do
  let offset ← Quantity.payloadOffset.fit (d.nextOffset t)
  return (offset, {
    bytes := d.bytes ++ List.replicate (d.nextOffset t - d.size) 0 ++ payload.1
    headSize := d.headSize
    headSize_le := by have := d.headSize_le; simp; omega })

def head (d : NodeData) (t : ValueType) : Except Error t.Value :=
  if h : t.size = d.headSize then
    .ok ⟨d.bytes.take d.headSize, by simp [h, Nat.min_eq_left d.headSize_le]⟩
  else .error (.headSizeMismatch t.name t.size d.headSize)

/-- Replaces the head by a value of its size. -/
def setHead (d : NodeData) {t : ValueType} (head : t.Value) : Except Error NodeData :=
  if h : t.size = d.headSize then
    .ok {
      bytes := head.1 ++ d.bytes.drop d.headSize
      headSize := d.headSize
      headSize_le := by simp [head.2, h] }
  else .error (.headSizeMismatch t.name t.size d.headSize)

end NodeData
end BehaviorTree
