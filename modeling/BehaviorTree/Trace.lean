import BehaviorTree.Status

/-! What happened to the nodes of a run, event by event. -/
namespace BehaviorTree

/-- What happened to a node. -/
inductive NodeEvent where
  /-- A fresh activation, or an explicit reset of the node's subtree. -/
  | reset
  /-- A tick that ended with a result. -/
  | tick (result : Status)
  deriving DecidableEq, Repr

/-- A node event with the number of the tick in which it happened. -/
structure TraceEvent where
  tick : UInt64
  node : Nat
  event : NodeEvent
  deriving DecidableEq, Repr

def TraceEvent.result? (e : TraceEvent) : Option Status :=
  match e.event with
  | .tick r => some r
  | .reset => none

/-- The events of a run, in order. -/
structure TraceLog where
  events : List TraceEvent
  deriving DecidableEq, Repr

namespace TraceLog

def empty : TraceLog := ⟨[]⟩

def push (l : TraceLog) (e : TraceEvent) : TraceLog := ⟨l.events ++ [e]⟩

def resets (l : TraceLog) : List Nat :=
  (l.events.filter (·.event = .reset)).map (·.node)

/-- The nodes that were ticked, with their results, in the order in which the ticks ended. -/
def ticks (l : TraceLog) : List (Nat × Status) :=
  l.events.filterMap fun e => e.result?.map (e.node, ·)

def tickedNodes (l : TraceLog) : List Nat := l.ticks.map (·.1)

def during (l : TraceLog) (tick : UInt64) : List TraceEvent := l.events.filter (·.tick = tick)

end TraceLog
end BehaviorTree
