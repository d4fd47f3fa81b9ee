import BehaviorTree.Library.Composite
import BehaviorTree.Library.Decorator
import BehaviorTree.Library.Leaf

/-! The node types that come with the library. -/
namespace BehaviorTree

/-- All behaviors of the library, by ascending type. -/
def Library.behaviors : List (TypeId × Behavior) :=
  [(sequenceId, sequence), (selectorId, selector), (parallelId, parallel),
    (repetitionId, repetition), (inverterId, inverter), (forceId, force), (fixedId, fixed),
    (delayId, delay)]

/-- The key under which hosts put the time between two ticks. -/
def Library.deltaTimeKey : UInt64 := 0xd7

/-- Adds the library; after its behaviors, the strategies that its variables need. A behavior whose
type is taken ends it. -/
def Machine.registerLibrary (m : Machine) : Machine × Except Error Unit :=
  match m.registerAll Library.behaviors with
  | (m, .ok ()) =>
    ({ m with registries := m.registries.ensureBuiltin PlainData.f32.type }, .ok ())
  | (m, .error e) => (m, .error e)

/-- A machine that knows the library and nothing else. -/
def Machine.ofLibrary : Machine := Machine.empty.registerLibrary.1

end BehaviorTree
