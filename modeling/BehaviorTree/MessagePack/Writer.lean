import BehaviorTree.Bytes.LittleEndian

/-! MessagePack encoding of natural numbers and of array headers, each in its shortest form. -/
namespace BehaviorTree
namespace MessagePack

/-- The `width` low bytes of `n`, the greatest first. -/
def bigEndian : (width : Nat) → Nat → List UInt8
  | 0, _ => []
  | width + 1, n => UInt8.ofNat (n / Bytes.bound width) :: bigEndian width n

/-- A number below `2 ^ 64`. -/
def writeNat (n : Nat) : List UInt8 :=
  if n < 0x80 then [UInt8.ofNat n]
  else if n < UInt8.size then 0xcc :: bigEndian 1 n
  else if n < UInt16.size then 0xcd :: bigEndian 2 n
  else if n < UInt32.size then 0xce :: bigEndian 4 n
  else 0xcf :: bigEndian 8 n

/-- The header of an array of `n` items, fewer than `2 ^ 32`. -/
def writeArrayHeader (n : Nat) : List UInt8 :=
  if n < 16 then [UInt8.ofNat (0x90 + n)]
  else if n < UInt16.size then 0xdc :: bigEndian 2 n
  else 0xdd :: bigEndian 4 n

def writeNats (ns : List Nat) : List UInt8 :=
  writeArrayHeader ns.length ++ ns.flatMap writeNat

end MessagePack
end BehaviorTree
