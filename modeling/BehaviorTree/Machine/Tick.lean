import BehaviorTree.Machine.Table

/-!
Ticking, resetting and aborting nodes. A node that is not running is activated before its tick: its own
default data comes back and its reset runs. A tick that fails leaves its subtree inactive.
-/
namespace BehaviorTree

namespace Run

variable {b : Blob} {α : Type}

/-- The outcome of a computation, as a value. -/
def attempt (x : Run b α) : Run b (Except Fault α) :=
  ExceptT.mk do
    let r ← x.run
    return .ok r

end Run

namespace Machine

variable {b : Blob}

/-- Records an event if the machine traces. -/
def trace (m : Machine) (i : Nat) (event : NodeEvent) : Run b Unit := do
  if m.config.trace then Run.emit i event

/-- Restores the default data of node `i` and runs its reset. -/
def activate (m : Machine) (bh : Behavior) (i : Nat) : Run b Unit := do
  Run.update (·.restore i)
  bh.reset i
  m.trace i .reset

/-- Looks up the behavior of node `i` and activates the node unless it is running. -/
def prepare (m : Machine) (i : Nat) : Run b Behavior := do
  let bh ← Run.lift (m.behaviorAt b i)
  if (← Run.lift ((← Run.inst).state i)) ≠ some .running then m.activate bh i
  return bh

/-- Runs the tick function `x` of node `i` one level deeper and records its result. -/
def perform (m : Machine) (i : Nat) (x : Run b Status) : Run b Status := do
  Run.setInst (← Run.inst).enter
  let r ← Run.attempt x
  Run.setInst (← Run.inst).leave
  match r with
  | .error e =>
    Run.clearSubtree i
    throw e
  | .ok s =>
    Run.update (·.setState i s)
    m.trace i (.tick s)
    return s

def resetNode (m : Machine) (i : Nat) : Run b Unit := do
  let bh ← Run.lift (m.behaviorAt b i)
  bh.reset i

/-- Restores and deactivates the subtree of node `i`, then resets its nodes in pre-order. -/
def reset (m : Machine) (i : Nat) : Run b Unit := do
  let _ ← Run.lift (m.behaviorAt b i)
  Run.update (·.resetSubtree i)
  let stop ← Run.lift (b.endOf i)
  (List.range' i (stop - i)).forM m.resetNode
  m.trace i .reset

/-- Ticks node `i` where `room` more ticks may be nested. -/
def tickWithin (m : Machine) : (room i : Nat) → Run b Status
  | 0, i => do
    let _ ← (m.prepare i : Run b Behavior)
    Run.fail (.depthExceeded i m.config.maxTickDepth)
  | room + 1, i => do
    let bh ← m.prepare i
    m.perform i (bh.tick m.registries ⟨m.tickWithin room, m.reset⟩ i)

def tick (m : Machine) (i : Nat) : Run b Status := do
  m.tickWithin (m.config.maxTickDepth - (← Run.inst).depth) i

def abort (i : Nat) : Run b Unit := do
  if b.size ≤ i then Run.fail (.indexOutOfRange i b.size)
  else Run.clearSubtree i

end Machine
end BehaviorTree
