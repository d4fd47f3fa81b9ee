import BehaviorTree.Run
import BehaviorTree.Text.Quoted

/-! What a machine knows about a node type. -/
namespace BehaviorTree

/-- What a tick function can ask of its machine: to tick and to reset nodes of the same tree. -/
structure Callbacks (b : Blob) where
  tick : Nat → Run b Status
  reset : Nat → Run b Unit

/-- The behavior of a node type. A tick function gets the machine's variables and may call the machine
back. -/
structure Behavior where
  name : String
  /-- Runs when the node becomes active, on its restored default data. It gets no callbacks: an activation
  comes before the check of the depth, so a reset function that ticked its own node would never end. -/
  reset : {b : Blob} → Nat → Run b Unit
  tick : {b : Blob} → Registries → Callbacks b → Nat → Run b Status
  /-- The components that a node touches, read off its default data. -/
  access : Option (Registries → Blob → Nat → Checked AccessList)

namespace Behavior

def noReset {b : Blob} (_ : Nat) : Run b Unit := pure ()

def declaresAccess (bh : Behavior) : Bool := bh.access.isSome

def describe (bh : Behavior) : String :=
  s!"NodeBehavior \x7b name: {Text.quote bh.name}, access: {bh.declaresAccess} \x7d"

end Behavior
end BehaviorTree
