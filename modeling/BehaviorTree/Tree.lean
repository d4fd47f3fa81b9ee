import BehaviorTree.Machine.Tick

/-! A tree in use: its instance and the result of its root. -/
namespace BehaviorTree

structure Tree (b : Blob) where
  inst : Instance b
  /-- The root's result in the latest tick that ended with one. -/
  last : Option Status

namespace Tree

variable {b : Blob}

def new (b : Blob) : Tree b := ⟨.new b, none⟩

/-- Runs a computation on the tree's instance. -/
def run {α : Type} (t : Tree b) (bb : Blackboard) (x : Run b α) :
    Except Fault α × Tree b × Blackboard :=
  let (r, w) := x.exec ⟨t.inst, bb⟩
  (r, { t with inst := w.inst }, w.board)

/-- Counts a tick and ticks the root. -/
def tick (t : Tree b) (m : Machine) (bb : Blackboard) :
    Except Fault Status × Tree b × Blackboard :=
  let (r, t, bb) := ({ t with inst := t.inst.advance } : Tree b).run bb (m.tick 0)
  match r with
  | .ok s => (r, { t with last := some s }, bb)
  | .error _ => (r, t, bb)

def reset (t : Tree b) (m : Machine) (bb : Blackboard) :
    Except Fault Unit × Tree b × Blackboard :=
  ({ t with last := none } : Tree b).run bb (m.reset 0)

end Tree
end BehaviorTree
