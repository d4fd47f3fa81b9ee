import BehaviorTree.Bytes.LittleEndian

/-!
MessagePack values and how they are read off bytes. Reading stops after the value; nesting is limited.
-/
namespace BehaviorTree

/-- A MessagePack value. Numbers with a signed and with an unsigned header are told apart; of floating
point numbers and extensions only the presence is kept. -/
inductive MessagePack where
  | nil
  | bool (value : Bool)
  | unsigned (value : Nat)
  | signed (value : Int)
  | float
  | string (bytes : List UInt8)
  | binary (bytes : List UInt8)
  | array (items : List MessagePack)
  | map (entries : List (MessagePack × MessagePack))
  | extension

namespace MessagePack

/-- Reading from the front of a byte string. -/
abbrev Reader (α : Type) := StateT (List UInt8) Option α

def readBytes (n : Nat) : Reader (List UInt8) := fun bs =>
  if n ≤ bs.length then some (bs.take n, bs.drop n) else none

/-- The number written by bytes, the greatest first. -/
def ofBigEndian (bs : List UInt8) : Nat := bs.foldl (fun n b => 256 * n + b.toNat) 0

def readNat (width : Nat) : Reader Nat := ofBigEndian <$> readBytes width

/-- The number of `width` bytes in two's complement. -/
def toSigned (width n : Nat) : Int :=
  if n < Bytes.bound width / 2 then n else (n : Int) - Bytes.bound width

def readMany {α : Type} (read : Reader α) : Nat → Reader (List α)
  | 0 => pure []
  | n + 1 => do
    let v ← read
    let vs ← readMany read n
    return v :: vs

def readPair {α : Type} (read : Reader α) : Reader (α × α) := do
  let k ← read
  let v ← read
  return (k, v)

/-- A number of `width` bytes and as many bytes as it says. -/
def readSized (width : Nat) : Reader (List UInt8) := do readBytes (← readNat width)

/-- What the first byte of a value says about the rest. -/
inductive Header where
  | value (v : MessagePack)
  | unsigned (width : Nat)
  | signed (width : Nat)
  | float (width : Nat)
  | string (length : Nat)
  | sizedString (width : Nat)
  | sizedBinary (width : Nat)
  | array (length : Nat)
  | sizedArray (width : Nat)
  | map (length : Nat)
  | sizedMap (width : Nat)
  /-- An extension with this many bytes after its type. -/
  | extension (length : Nat)
  | sizedExtension (width : Nat)

/-- The header of a first byte; one byte is none. -/
def Header.ofByte? (byte : UInt8) : Option Header :=
  let n := byte.toNat
  if n < 0x80 then some (.value (.unsigned n))
  else if n < 0x90 then some (.map (n - 0x80))
  else if n < 0xa0 then some (.array (n - 0x90))
  else if n < 0xc0 then some (.string (n - 0xa0))
  else if 0xe0 ≤ n then some (.value (.signed ((n : Int) - 256)))
  else
    match n with
    | 0xc0 => some (.value .nil)
    | 0xc2 => some (.value (.bool false))
    | 0xc3 => some (.value (.bool true))
    | 0xc4 => some (.sizedBinary 1)
    | 0xc5 => some (.sizedBinary 2)
    | 0xc6 => some (.sizedBinary 4)
    | 0xc7 => some (.sizedExtension 1)
    | 0xc8 => some (.sizedExtension 2)
    | 0xc9 => some (.sizedExtension 4)
    | 0xca => some (.float 4)
    | 0xcb => some (.float 8)
    | 0xcc => some (.unsigned 1)
    | 0xcd => some (.unsigned 2)
    | 0xce => some (.unsigned 4)
    | 0xcf => some (.unsigned 8)
    | 0xd0 => some (.signed 1)
    | 0xd1 => some (.signed 2)
    | 0xd2 => some (.signed 4)
    | 0xd3 => some (.signed 8)
    | 0xd4 => some (.extension 1)
    | 0xd5 => some (.extension 2)
    | 0xd6 => some (.extension 4)
    | 0xd7 => some (.extension 8)
    | 0xd8 => some (.extension 16)
    | 0xd9 => some (.sizedString 1)
    | 0xda => some (.sizedString 2)
    | 0xdb => some (.sizedString 4)
    | 0xdc => some (.sizedArray 2)
    | 0xdd => some (.sizedArray 4)
    | 0xde => some (.sizedMap 2)
    | 0xdf => some (.sizedMap 4)
    | _ => none

/-- The value after a header that holds no other values. -/
def readFlat : Header → Reader MessagePack
  | .value v => pure v
  | .unsigned width => .unsigned <$> readNat width
  | .signed width => (fun n => .signed (toSigned width n)) <$> readNat width
  | .float width => (fun _ => .float) <$> readBytes width
  | .string length => .string <$> readBytes length
  | .sizedString width => .string <$> readSized width
  | .sizedBinary width => .binary <$> readSized width
  | _ => failure

/-- The value after a header that counts as a level of nesting; `read` reads the values inside. -/
def readNested (read : Reader MessagePack) : Header → Reader MessagePack
  | .array n => .array <$> readMany read n
  | .sizedArray width => do return .array (← readMany read (← readNat width))
  | .map n => .map <$> readMany (readPair read) n
  | .sizedMap width => do return .map (← readMany (readPair read) (← readNat width))
  | .extension n => (fun _ => .extension) <$> readBytes (n + 1)
  | .sizedExtension width => do
    let _ ← readBytes ((← readNat width) + 1)
    return .extension
  | _ => failure

/-- Whether a header counts as a level of nesting. -/
def Header.isNested : Header → Bool
  | .array _ | .sizedArray _ | .map _ | .sizedMap _ | .extension _ | .sizedExtension _ => true
  | _ => false

def readHeader : Reader Header
  | [] => none
  | byte :: bs => (Header.ofByte? byte).map (·, bs)

/-- A value with at most `room` levels of nesting. -/
def readWithin : (room : Nat) → Reader MessagePack
  | 0 => do
    let h ← readHeader
    if h.isNested then failure else readFlat h
  | room + 1 => do
    let h ← readHeader
    if h.isNested then readNested (readWithin room) h else readFlat h

def maxNesting : Nat := 1023

/-- The value at the front of the bytes. -/
def read : Reader MessagePack := readWithin maxNesting

end MessagePack
end BehaviorTree
