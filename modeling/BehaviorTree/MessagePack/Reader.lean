import BehaviorTree.MessagePack.Value

/-! What typed data ask of MessagePack values: natural numbers, lists, and records. -/
namespace BehaviorTree
namespace MessagePack

def nat? (bound : Nat) : MessagePack → Option Nat
  | .unsigned n => if n < bound then some n else none
  | .signed n => if 0 ≤ n ∧ n.toNat < bound then some n.toNat else none
  | _ => none

/-- A list; a binary string is a list of its bytes. -/
def items? : MessagePack → Option (List MessagePack)
  | .array items => some items
  | .binary bytes => some (bytes.map fun b => .unsigned b.toNat)
  | _ => none

/-- The position of the field that a key names: by its name or by its number. A key that names none is
past the end; a key of another kind is refused. -/
def position? (names : List String) : MessagePack → Option Nat
  | .string bytes | .binary bytes =>
    some (names.findIdx fun name => name.toUTF8.toList = bytes)
  | .unsigned n => some n
  | _ => none

/-- The values of a record's fields, which is an array of just these or a map that has each of them
once and may have others. -/
def record? (names : List String) : MessagePack → Option (List MessagePack)
  | .array items => if items.length = names.length then some items else none
  | .map entries => do
    let placed ← entries.mapM fun e => do return (← position? names e.1, e.2)
    (List.range names.length).mapM fun i =>
      match placed.filter (·.1 = i) with
      | [e] => some e.2
      | _ => none
  | _ => none

end MessagePack
end BehaviorTree
