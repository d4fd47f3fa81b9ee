/-! Byte strings of a fixed length, and numbers written in them with the least byte first. -/
namespace BehaviorTree

/-- A byte string of length `n`. -/
abbrev Bytes (n : Nat) := { bs : List UInt8 // bs.length = n }

/-- The numbers of `n` bytes are those below it. -/
def Bytes.bound : (n : Nat) → Nat
  | 0 => 1
  | n + 1 => 256 * bound n

namespace LittleEndian

/-- The `width` low bytes of `n`. -/
def encode : (width : Nat) → Nat → List UInt8
  | 0, _ => []
  | width + 1, n => UInt8.ofNat n :: encode width (n / 256)

def decode : List UInt8 → Nat
  | [] => 0
  | b :: bs => b.toNat + 256 * decode bs

@[simp] theorem length_encode (width n : Nat) : (encode width n).length = width := by
  induction width generalizing n with
  | zero => rfl
  | succ width ih => simp [encode, ih]

theorem decode_encode (width n : Nat) : decode (encode width n) = n % Bytes.bound width := by
  induction width generalizing n with
  | zero => simp [encode, decode, Bytes.bound, Nat.mod_one]
  | succ width ih =>
    rw [encode, decode, ih, UInt8.toNat_ofNat']
    change n % 256 + 256 * (n / 256 % Bytes.bound width) = n % Bytes.bound (width + 1)
    rw [Bytes.bound, Nat.mod_mul]

theorem encode_decode (bs : List UInt8) : encode bs.length (decode bs) = bs := by
  induction bs with
  | nil => rfl
  | cons b bs ih =>
    have hb := b.toNat_lt
    have h₁ : UInt8.ofNat (b.toNat + 256 * decode bs) = b := by
      apply UInt8.toNat_inj.1
      rw [UInt8.toNat_ofNat']
      omega
    have h₂ : (b.toNat + 256 * decode bs) / 256 = decode bs := by omega
    simp only [List.length_cons, encode, decode, h₁, h₂, ih]

theorem decode_lt (bs : List UInt8) : decode bs < Bytes.bound bs.length := by
  induction bs with
  | nil => simp [decode, Bytes.bound]
  | cons b bs ih =>
    have hb := b.toNat_lt
    rw [decode, List.length_cons, Bytes.bound]
    omega

end LittleEndian

namespace Bytes

def toNat {n : Nat} (bs : Bytes n) : Nat := LittleEndian.decode bs.1

/-- The low `n` bytes of a number. -/
def ofNat (n value : Nat) : Bytes n := ⟨LittleEndian.encode n value, by simp⟩

theorem toNat_lt {n : Nat} (bs : Bytes n) : bs.toNat < bound n := by
  simpa [toNat, bs.2] using LittleEndian.decode_lt bs.1

@[simp] theorem ofNat_toNat {n : Nat} (bs : Bytes n) : ofNat n bs.toNat = bs := by
  obtain ⟨bs, rfl⟩ := bs
  exact Subtype.ext (LittleEndian.encode_decode bs)

theorem toNat_ofNat {n value : Nat} (h : value < bound n) : (ofNat n value).toNat = value := by
  simp [toNat, ofNat, LittleEndian.decode_encode, Nat.mod_eq_of_lt h]

def append {m n : Nat} (a : Bytes m) (b : Bytes n) : Bytes (m + n) :=
  ⟨a.1 ++ b.1, by simp [a.2, b.2]⟩

def first {m n : Nat} (bs : Bytes (m + n)) : Bytes m := ⟨bs.1.take m, by simp [bs.2]⟩

def last {m n : Nat} (bs : Bytes (m + n)) : Bytes n := ⟨bs.1.drop m, by simp [bs.2]⟩

@[simp] theorem first_append {m n : Nat} (a : Bytes m) (b : Bytes n) : (a.append b).first = a :=
  Subtype.ext (by simp [first, append, List.take_left' a.2])

@[simp] theorem last_append {m n : Nat} (a : Bytes m) (b : Bytes n) : (a.append b).last = b :=
  Subtype.ext (by simp [last, append, List.drop_left' a.2])

@[simp] theorem append_first_last {m n : Nat} (bs : Bytes (m + n)) :
    bs.first.append bs.last = bs :=
  Subtype.ext (by simp [first, last, append])

def replicate (n : Nat) (b : UInt8) : Bytes n := ⟨List.replicate n b, by simp⟩

end Bytes
end BehaviorTree
