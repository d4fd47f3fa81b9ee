import BehaviorTree.Machine.Tick

/-! Nodes with one child: repetition, inversion and forced results. -/
namespace BehaviorTree

structure RepeatData where
  /-- Completions before success; zero and below repeat forever. -/
  times : Int32
  /-- Completions so far. -/
  count : Int32
  /-- The results that end the repetition, as a set of bits. -/
  breakOn : UInt8
  padding : Bytes 3

/-- The type of padding bytes. -/
def ValueType.padding : ValueType := ⟨"", 3, 1⟩

def PlainData.repeatData : PlainData RepeatData :=
  (pair (pair i32 i32) (pair u8 (raw .padding))).rename "RepeatData"
    (fun x => ⟨x.1.1, x.1.2, x.2.1, x.2.2⟩)
    (fun d => ((d.times, d.count), (d.breakOn, d.padding)))
    (fun _ => rfl) (fun _ => rfl)

/-- What a completed or running child means for the repetition, and the data afterwards. -/
def RepeatData.step (d : RepeatData) (s : Status) : RepeatData × Status :=
  if s.isIn d.breakOn then (d, s)
  else if s.isRunning then (d, .running)
  else
    let d := { d with count := d.count + 1 }
    (d, if 0 < d.times ∧ d.times ≤ d.count then .success else .running)

namespace Library

variable {b : Blob}

def onlyChild (i : Nat) : Run b Nat := do
  match ← Run.children i with
  | [] => Run.fail (.missingChild i)
  | c :: _ => return c

/-- Repeats its child until enough completions or a result that ends it. -/
def repetition : Behavior where
  name := "Repeat"
  reset := Behavior.noReset
  tick _ cb i := do
    let child ← onlyChild i
    let s ← cb.tick child
    let (d, s) := RepeatData.step (← Run.readHead .repeatData i) s
    Run.writeHead .repeatData i d
    return s
  access := none

/-- Exchanges success and failure of its child. -/
def inverter : Behavior where
  name := "Inverter"
  reset := Behavior.noReset
  tick _ cb i := do
    let child ← onlyChild i
    return (← cb.tick child).invert
  access := none

/-- Replaces any result of its child but `running`. -/
def force : Behavior where
  name := "Force"
  reset := Behavior.noReset
  tick _ cb i := do
    let child ← onlyChild i
    let forced ← Run.readStatus i 0
    let s ← cb.tick child
    return if s.isRunning then s else forced
  access := none

def repetitionId : TypeId := ⟨4⟩
def inverterId : TypeId := ⟨5⟩
def forceId : TypeId := ⟨6⟩

end Library

namespace Blueprint

/-- Repeats `child` up to `times` completions or a result in the set `breakOn`. -/
def repetition (times : Int32) (breakOn : UInt8) (child : Blueprint) : Blueprint :=
  node Library.repetitionId
    (PlainData.repeatData.encode ⟨times, 0, breakOn, .replicate 3 0⟩).1 [child]

def untilFailure (child : Blueprint) : Blueprint := repetition 0 Status.failure.bits child

def inverter (child : Blueprint) : Blueprint := node Library.inverterId [] [child]

def force (result : Status) (child : Blueprint) : Blueprint :=
  node Library.forceId [result.bits] [child]

end Blueprint
end BehaviorTree
