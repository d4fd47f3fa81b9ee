import BehaviorTree.Machine.Tick

/-! Nodes with any number of children: sequences, selectors and parallels. -/
namespace BehaviorTree

namespace Library

variable {b : Blob}

/-- Makes the running ones among the nodes inactive, with all below them. -/
def abortRunning : List Nat → Run b Unit
  | [] => pure ()
  | c :: cs => do
    if (← Run.lift ((← Run.inst).state c)) = some .running then Machine.abort c
    abortRunning cs

/-- Ticks the nodes in order while they return `keepGoing`. The first other result is the answer, and
the nodes after it are aborted. -/
def tickWhile (keepGoing : Status) (tick : Nat → Run b Status) : List Nat → Run b Status
  | [] => pure keepGoing
  | c :: cs => do
    let s ← tick c
    if s = keepGoing then tickWhile keepGoing tick cs
    else
      abortRunning cs
      return s

/-- Succeeds once all children succeed in one pass. -/
def sequence : Behavior where
  name := "Sequence"
  reset := Behavior.noReset
  tick _ cb i := do tickWhile .success cb.tick (← Run.children i)
  access := none

/-- Takes the first child's result that is no failure. -/
def selector : Behavior where
  name := "Selector"
  reset := Behavior.noReset
  tick _ cb i := do tickWhile .failure cb.tick (← Run.children i)
  access := none

/-- Whether any of the result bytes of node `i`, one for each of the slots, is `running`. -/
def anyRunning (i : Nat) : List Nat → Run b Bool
  | [] => pure false
  | k :: ks => do
    let s ← Run.readStatus i k
    return s.isRunning || (← anyRunning i ks)

/-- Ticks the child whose result byte is `running` and records its result; the results of the other
children stand. -/
def tickSlots (tick : Nat → Run b Status) (i : Nat) : List (Nat × Nat) → Run b (List Status)
  | [] => pure []
  | (c, k) :: rest => do
    let s ← Run.readStatus i k
    let s ← if s.isRunning then do
        let s ← tick c
        Run.writeStatus i k s
        pure s
      else pure s
    return s :: (← tickSlots tick i rest)

/-- Running while a child is; then a failure if there was one. -/
def combine (results : List Status) : Status :=
  if .running ∈ results then .running
  else if .failure ∈ results then .failure
  else .success

/-- Ticks every child that has not completed. Its data holds one result byte for each child. -/
def parallel : Behavior where
  name := "Parallel"
  reset i := Run.update fun s => s.fill i Status.running.bits
  tick _ cb i := do
    let slots := (← Run.children i).zipIdx
    unless ← anyRunning i (slots.map (·.2)) do
      Run.fail (.noRunningChild i)
    return combine (← tickSlots cb.tick i slots)
  access := none

def sequenceId : TypeId := ⟨1⟩
def selectorId : TypeId := ⟨2⟩
def parallelId : TypeId := ⟨3⟩

end Library

namespace Blueprint

def sequence (children : List Blueprint) : Blueprint := node Library.sequenceId [] children

def selector (children : List Blueprint) : Blueprint := node Library.selectorId [] children

/-- Every child starts out as running. -/
def parallel (children : List Blueprint) : Blueprint :=
  node Library.parallelId (List.replicate children.length Status.running.bits) children

end Blueprint
end BehaviorTree
