import BehaviorTree.Bytes.LittleEndian
import BehaviorTree.Single

/-!
Plain data: types whose values are exactly the byte strings of one length. A type is known by its
name, size and alignment; a format reads and writes its values, and neither direction loses a bit.
-/
namespace BehaviorTree

structure ValueType where
  name : String
  size : Nat
  align : Nat
  deriving DecidableEq, Repr, Inhabited

namespace ValueType

/-- The values of the type, as bytes. -/
abbrev Value (t : ValueType) := Bytes t.size

def u8 : ValueType := ⟨"u8", 1, 1⟩
def u16 : ValueType := ⟨"u16", 2, 2⟩
def u32 : ValueType := ⟨"u32", 4, 4⟩
def u64 : ValueType := ⟨"u64", 8, 8⟩
def i32 : ValueType := ⟨"i32", 4, 4⟩
def f32 : ValueType := ⟨"f32", 4, 4⟩

end ValueType

/-- How the values of `α` are written as values of a plain type. -/
structure PlainData (α : Type) where
  type : ValueType
  encode : α → type.Value
  decode : type.Value → α
  decode_encode : ∀ a, decode (encode a) = a
  encode_decode : ∀ bs, encode (decode bs) = bs

attribute [simp] PlainData.decode_encode PlainData.encode_decode

namespace PlainData

variable {α β : Type}

def raw (t : ValueType) : PlainData t.Value where
  type := t
  encode bs := bs
  decode bs := bs
  decode_encode _ := rfl
  encode_decode _ := rfl

/-- Two values one after the other. -/
def pair (a : PlainData α) (b : PlainData β) : PlainData (α × β) where
  type := ⟨"", a.type.size + b.type.size, max a.type.align b.type.align⟩
  encode x := (a.encode x.1).append (b.encode x.2)
  decode bs := (a.decode bs.first, b.decode bs.last)
  decode_encode x := by simp
  encode_decode bs := by simp

/-- The same bytes read as another type, with its own name. -/
def rename (a : PlainData α) (name : String) (mk : α → β) (inv : β → α)
    (mk_inv : ∀ b, mk (inv b) = b) (inv_mk : ∀ a, inv (mk a) = a) : PlainData β where
  type := { a.type with name }
  encode b := a.encode (inv b)
  decode bs := mk (a.decode bs)
  decode_encode b := by simp [mk_inv]
  encode_decode bs := by simp [inv_mk]

/-- The same bytes without a requirement on their position. -/
def packed (a : PlainData α) : PlainData α where
  type := { a.type with align := 1 }
  encode x := a.encode x
  decode bs := a.decode bs
  decode_encode x := by simp
  encode_decode bs := by simp

/-- Numbers of `size` bytes, the least byte first. -/
def number (t : ValueType) (toNat : α → Nat) (ofNat : Nat → α)
    (toNat_lt : ∀ a, toNat a < Bytes.bound t.size) (ofNat_toNat : ∀ a, ofNat (toNat a) = a)
    (toNat_ofNat : ∀ n < Bytes.bound t.size, toNat (ofNat n) = n) : PlainData α where
  type := t
  encode v := .ofNat t.size (toNat v)
  decode bs := ofNat bs.toNat
  decode_encode v := by rw [Bytes.toNat_ofNat (toNat_lt v), ofNat_toNat]
  encode_decode bs := by rw [toNat_ofNat _ bs.toNat_lt, Bytes.ofNat_toNat]

def u8 : PlainData UInt8 :=
  number .u8 UInt8.toNat UInt8.ofNat UInt8.toNat_lt (by simp)
    (fun _ h => UInt8.toNat_ofNat_of_lt' h)

def u16 : PlainData UInt16 :=
  number .u16 UInt16.toNat UInt16.ofNat UInt16.toNat_lt (by simp)
    (fun _ h => UInt16.toNat_ofNat_of_lt' h)

def u32 : PlainData UInt32 :=
  number .u32 UInt32.toNat UInt32.ofNat UInt32.toNat_lt (by simp)
    (fun _ h => UInt32.toNat_ofNat_of_lt' h)

def u64 : PlainData UInt64 :=
  number .u64 UInt64.toNat UInt64.ofNat UInt64.toNat_lt (by simp)
    (fun _ h => UInt64.toNat_ofNat_of_lt' h)

def i32 : PlainData Int32 :=
  u32.rename "i32" UInt32.toInt32 Int32.toUInt32 (fun _ => rfl) (fun _ => rfl)

def f32 : PlainData Single :=
  u32.rename "f32" Single.mk Single.bits (fun _ => rfl) (fun _ => rfl)

end PlainData
end BehaviorTree
