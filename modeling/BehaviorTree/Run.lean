import BehaviorTree.Variable.Resolve

/-!
Computations on a running tree and its blackboard. A computation that fails keeps what it changed up to
then.
-/
namespace BehaviorTree

structure World (b : Blob) where
  inst : Instance b
  board : Blackboard

/-- A computation on the world of a tree `b`. -/
abbrev Run (b : Blob) (α : Type) := ExceptT Fault (StateM (World b)) α

namespace Run

variable {b : Blob} {α : Type}

/-- The outcome and the world afterwards. -/
def exec (x : Run b α) (w : World b) : Except Fault α × World b := x.run.run w

def lift (c : Checked α) : Run b α := liftExcept c

def fail (e : Error) : Run b α := throw (.error e)

def inst : Run b (Instance b) := return (← get).inst

def board : Run b Blackboard := return (← get).board

def setInst (s : Instance b) : Run b Unit := modify fun w => { w with inst := s }

def setBoard (bb : Blackboard) : Run b Unit := modify fun w => { w with board := bb }

/-- A change of the instance that may fail. -/
def update (f : Instance b → Checked (Instance b)) : Run b Unit := do
  setInst (← lift (f (← inst)))

def children (i : Nat) : Run b (List Nat) := lift (b.children i)

/-- The value at the head of the data of node `i`. -/
def readHead (p : PlainData α) (i : Nat) : Run b α := do
  return p.decode (← lift ((← inst).readAt p.type i 0))

/-- Replaces the value at the head of the data of node `i`. No head needs more than the alignment of words,
so it does not matter where the memory starts. -/
def writeHead (p : PlainData α) (i : Nat) (a : α) : Run b Unit :=
  update fun s => s.writeAt i 0 (p.encode a) default

/-- Byte `k` of the data of node `i`, as a result. -/
def readStatus (i k : Nat) : Run b Status := do
  let byte := PlainData.u8.decode (← lift ((← inst).readAt PlainData.u8.type i k))
  lift (Checked.ofExcept (Status.ofBits byte))

/-- Records a result in byte `k` of the data of node `i`. -/
def writeStatus (i k : Nat) (r : Status) : Run b Unit :=
  update fun s => s.writeAt i k (PlainData.u8.encode r.bits) default

def clearSubtree (i : Nat) : Run b Unit := do
  let stop ← lift (b.endOf i)
  update (·.clearStates i stop)

def emit (i : Nat) (event : NodeEvent) : Run b Unit := do
  let (bb, r) := (← board).emit ⟨(← inst).tick, i, event⟩
  setBoard bb
  lift (Checked.ofBoard r)

end Run
end BehaviorTree
