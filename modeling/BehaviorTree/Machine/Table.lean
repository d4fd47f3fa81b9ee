import BehaviorTree.Config
import BehaviorTree.Machine.Behavior

/-! Machines: a dispatch table from node types to behaviors, variable strategies and a configuration. -/
namespace BehaviorTree

/-- A machine. The table has a slot for every type up to the largest one registered. -/
structure Machine where
  behaviors : Array (Option Behavior)
  registries : Registries
  config : Config

namespace Machine

def maxTypeId : Nat := 65535

def empty : Machine := ⟨#[], .empty, .default⟩

def behavior? (m : Machine) (id : TypeId) : Option Behavior := m.behaviors[id.val.toNat]?.join

def nameOf? (m : Machine) (id : TypeId) : Option String := (m.behavior? id).map (·.name)

def isRegistered (m : Machine) (id : TypeId) : Bool := (m.behavior? id).isSome

/-- The table with slots up to `slot`. -/
def grow (table : Array (Option Behavior)) (slot : Nat) : Array (Option Behavior) :=
  table ++ Array.replicate (slot + 1 - table.size) none

/-- Adds a behavior unless its type is out of range or taken. -/
def register (m : Machine) (id : TypeId) (bh : Behavior) : Except Error Machine :=
  if maxTypeId < id.val.toNat then .error (.nodeTypeOutOfRange id maxTypeId)
  else
    match m.behavior? id with
    | some old => .error (.duplicateNodeType id old.name)
    | none =>
      let table := grow m.behaviors id.val.toNat
      .ok { m with behaviors := table.setIfInBounds id.val.toNat (some bh) }

/-- Adds behaviors one by one up to the first failure. -/
def registerAll (m : Machine) : List (TypeId × Behavior) → Machine × Except Error Unit
  | [] => (m, .ok ())
  | (id, bh) :: rest =>
    match m.register id bh with
    | .ok m => m.registerAll rest
    | .error e => (m, .error e)

def behaviorAt (m : Machine) (b : Blob) (i : Nat) : Checked Behavior := do
  if b.size ≤ i then Checked.fail (.indexOutOfRange i b.size)
  else
    let id ← b.typeOf i
    match m.behavior? id with
    | some bh => return bh
    | none => Checked.fail (.unknownNodeType id i)

def addAccess (m : Machine) (b : Blob) (l : AccessList) (i : Nat) : Checked AccessList := do
  let bh ← m.behaviorAt b i
  match bh.access with
  | none => return l
  | some access => return l.merge (← access m.registries b i)

def componentAccess (m : Machine) (b : Blob) : Checked AccessList :=
  (List.range b.size).foldlM (m.addAccess b) .empty

end Machine
end BehaviorTree
