import BehaviorTree.Machine.Tick

/-! Nodes without children: fixed results and timers. -/
namespace BehaviorTree

structure DelayData where
  duration : Variable
  delta : Variable
  elapsed : Single

def PlainData.delayData : PlainData DelayData :=
  (pair (pair handle handle) f32).rename "DelayTimerData"
    (fun x => ⟨x.1.1, x.1.2, x.2⟩) (fun d => ((d.duration, d.delta), d.elapsed))
    (fun _ => rfl) (fun _ => rfl)

namespace Library

variable {b : Blob}

def fixed : Behavior where
  name := "State"
  reset := Behavior.noReset
  tick _ _ i := Run.readStatus i 0
  access := none

def readSingle (rs : Registries) (v : Variable) (i : Nat) : Run b Single := do
  return PlainData.f32.decode (← Run.lift (v.read rs PlainData.f32.type i (← Run.inst) (← Run.board)))

/-- The components that the variables of a timer touch. -/
def delayAccess (rs : Registries) (b : Blob) (i : Nat) : Checked AccessList := do
  let d := PlainData.delayData.decode (← b.defaultValue PlainData.delayData.type i)
  let duration ← Checked.ofExcept (d.duration.access rs PlainData.f32.type)
  let delta ← Checked.ofExcept (d.delta.access rs PlainData.f32.type)
  return duration.merge delta

/-- Runs until the deltas of its ticks add up to its duration. -/
def delay : Behavior where
  name := "DelayTimer"
  reset := Behavior.noReset
  tick rs _ i := do
    let d ← Run.readHead .delayData i
    let duration ← readSingle rs d.duration i
    let delta ← readSingle rs d.delta i
    let elapsed := d.elapsed + delta
    Run.writeHead .delayData i { d with elapsed }
    return if elapsed.atLeast duration then .success else .running
  access := some delayAccess

def fixedId : TypeId := ⟨7⟩
def delayId : TypeId := ⟨8⟩

end Library

namespace Blueprint

def fixed (result : Status) : Blueprint := node Library.fixedId [result.bits] []

/-- A timer whose variables are made by `make`, in the data of the node. -/
def delayWith (make : NodeData → Except Error ((Variable × Variable) × NodeData)) :
    Except Error Blueprint := do
  let head := PlainData.delayData.encode ⟨⟨0, 0⟩, ⟨0, 0⟩, .zero⟩
  let ((duration, delta), d) ← make (.ofHead head)
  let head := PlainData.delayData.decode (← d.head PlainData.delayData.type)
  let d ← d.setHead (PlainData.delayData.encode { head with duration, delta })
  return node Library.delayId d.bytes []

/-- A timer with a fixed duration, driven by the blackboard value under `key`. -/
def delay (duration : Single) (key : UInt64) : Except Error Blueprint :=
  delayWith fun d => do
    let (duration, d) ← Variable.constant d (PlainData.f32.encode duration)
    let (delta, d) ← Variable.blackboard d key
    return ((duration, delta), d)

end Blueprint
end BehaviorTree
