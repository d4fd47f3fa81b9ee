import BehaviorTree.Blob.Layout
import BehaviorTree.Json.Printer
import BehaviorTree.Json.Reader
import BehaviorTree.MessagePack.Reader
import BehaviorTree.MessagePack.Writer
import BehaviorTree.Wire.Hash

/-!
The stored forms of blobs: MessagePack and JSON, both a record of the five arrays. What is read is
validated.
-/
namespace BehaviorTree

/-- Why stored bytes or text are no blob. -/
inductive WireError where
  /-- No MessagePack form of a layout. -/
  | messagePack
  /-- No JSON form of a layout. -/
  | json
  /-- A layout that is not valid. -/
  | invalid (cause : Fault)
  deriving DecidableEq, Repr

def WireError.message : WireError → String
  | messagePack => "the bytes are not the MessagePack form of a blob"
  | json => "the text is not the JSON form of a blob"
  | invalid cause => s!"invalid blob: {cause.message}"

namespace Layout

def fieldNames : List String := ["types", "end_indices", "offsets", "sizes", "data"]

/-- The arrays as numbers, in order. -/
def columns (l : Layout) : List (List Nat) :=
  [l.types.toList.map (·.val.toNat), l.ends.toList.map UInt32.toNat,
    l.offsets.toList.map UInt32.toNat, l.sizes.toList.map UInt32.toNat,
    l.words.toList.map UInt64.toNat]

/-- The bounds of the numbers in each array. -/
def columnBounds : List Nat := [UInt32.size, UInt32.size, UInt32.size, UInt32.size, UInt64.size]

def ofColumns? : List (List Nat) → Option Layout
  | [types, ends, offsets, sizes, words] => some {
      types := (types.map fun n => ⟨UInt32.ofNat n⟩).toArray
      ends := (ends.map UInt32.ofNat).toArray
      offsets := (offsets.map UInt32.ofNat).toArray
      sizes := (sizes.map UInt32.ofNat).toArray
      words := (words.map UInt64.ofNat).toArray }
  | _ => none

/-- Reads each array by `read`, with its bound. -/
def readColumns? {α : Type} (read : Nat → α → Option (List Nat)) (values : List α) :
    Option Layout := do
  ofColumns? (← (columnBounds.zip values).mapM fun x => read x.1 x.2)

def ofMessagePack? (v : MessagePack) : Option Layout := do
  readColumns? (fun bound v => do (← v.items?).mapM (·.nat? bound)) (← v.record? fieldNames)

def ofJson? (v : Json) : Option Layout := do
  readColumns? (fun bound v => do (← v.items?).mapM (·.nat? bound)) (← v.record? fieldNames)

def toJson (l : Layout) : Json :=
  .ofFields (fieldNames.zip (l.columns.map fun ns => .array (ns.map .ofNat)))

end Layout

namespace Blob

/-- The MessagePack form: the arrays in order, without names. -/
def toMessagePack (b : Blob) : List UInt8 :=
  MessagePack.writeArrayHeader b.columns.length ++ b.columns.flatMap MessagePack.writeNats

def toJsonText (b : Blob) : String := .ofList (b.toJson.pretty 0)

def ofWire (error : WireError) : Option Layout → Except WireError Blob
  | none => .error error
  | some l =>
    match l.toBlob with
    | .ok b => .ok b
    | .error e => .error (.invalid e)

/-- The blob at the start of the bytes. -/
def ofMessagePack (bytes : List UInt8) : Except WireError Blob :=
  ofWire .messagePack do
    let (v, _) ← MessagePack.read bytes
    Layout.ofMessagePack? v

def ofJsonText (text : String) : Except WireError Blob :=
  ofWire .json do Layout.ofJson? (← Json.parse? text.toList)

def hash (b : Blob) : UInt64 := fnv1a b.toMessagePack

end Blob
end BehaviorTree
