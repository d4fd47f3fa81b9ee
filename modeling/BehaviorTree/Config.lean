/-! The configuration of a machine. -/
namespace BehaviorTree

structure Config where
  /-- How many ticks may be nested. -/
  maxTickDepth : Nat
  /-- Whether resets and results are recorded as trace events. -/
  trace : Bool
  deriving DecidableEq, Repr

def Config.default : Config := ⟨256, false⟩

end BehaviorTree
