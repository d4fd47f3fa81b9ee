/-! Node results and their one-bit encoding, so that a set of results fits in a byte of node data. -/
namespace BehaviorTree

/-- What a tick of a node returns. -/
inductive Status where
  | success
  | failure
  | running
  deriving DecidableEq, Repr, Inhabited

namespace Status

/-- Each result is one bit. -/
def bits : Status → UInt8
  | success => 1
  | failure => 2
  | running => 4

/-- The result whose bit is `b`; a byte that is not exactly one known bit is no result. -/
def ofBits? (b : UInt8) : Option Status :=
  if b = 1 then some success
  else if b = 2 then some failure
  else if b = 4 then some running
  else none

def isRunning : Status → Bool
  | running => true
  | _ => false

def isCompleted (s : Status) : Bool := !s.isRunning

/-- Membership in the set of results encoded by `mask`. -/
def isIn (s : Status) (mask : UInt8) : Bool := s.bits &&& mask != 0

def invert : Status → Status
  | success => failure
  | failure => success
  | running => running

/-- The name used in traces. -/
def name : Status → String
  | success => "Success"
  | failure => "Failure"
  | running => "Running"

/-- The word used in reports of a run. -/
def label : Status → String
  | success => "success"
  | failure => "failure"
  | running => "running"

@[simp] theorem ofBits?_bits (s : Status) : ofBits? s.bits = some s := by cases s <;> decide

theorem bits_injective {s t : Status} (h : s.bits = t.bits) : s = t := by
  simpa using congrArg ofBits? h

theorem ofBits?_eq_some {b : UInt8} {s : Status} : ofBits? b = some s ↔ b = s.bits := by
  constructor
  · intro h
    unfold ofBits? at h
    repeat' split at h
    all_goals first | (cases h; assumption) | cases h
  · rintro rfl; simp

@[simp] theorem isRunning_iff {s : Status} : s.isRunning = true ↔ s = running := by
  cases s <;> simp [isRunning]

@[simp] theorem invert_invert (s : Status) : s.invert.invert = s := by cases s <;> rfl

end Status

/-- Identifier of a node's behavior in a machine's dispatch table. -/
structure TypeId where
  val : UInt32
  deriving DecidableEq, Repr, Inhabited

def TypeId.text (id : TypeId) : String := s!"#{id.val}"

end BehaviorTree
