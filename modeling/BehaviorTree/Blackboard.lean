import BehaviorTree.Dict
import BehaviorTree.Error
import BehaviorTree.PlainData
import BehaviorTree.Trace

/-!
The store that nodes share with their host: values of any type under 64-bit keys, and components, one
per component type. Every access names the type it expects.
-/
namespace BehaviorTree

inductive BoardType where
  | plain (type : ValueType)
  | text
  | status
  | log
  | indices
  /-- A receiver of trace events; all receivers write to one stream. -/
  | sink
  deriving DecidableEq, Repr

namespace BoardType

abbrev Carrier : BoardType → Type
  | plain type => type.Value
  | text => String
  | status => Status
  | log => TraceLog
  | indices => List Nat
  | sink => Unit

def name : BoardType → String
  | plain type => type.name
  | text => "String"
  | status => "NodeState"
  | log => "TraceLog"
  | indices => "Vec<usize>"
  | sink => "Box<dyn TraceSink + Send>"

end BoardType

structure BoardValue where
  type : BoardType
  value : type.Carrier

/-- The value, if it has the expected type. -/
def BoardValue.as? (v : BoardValue) (t : BoardType) : Option t.Carrier :=
  if h : v.type = t then some (h ▸ v.value) else none

@[simp] theorem BoardValue.as?_self (t : BoardType) (v : t.Carrier) :
    BoardValue.as? ⟨t, v⟩ t = some v := by simp [as?]

theorem BoardValue.as?_eq_none {v : BoardValue} {t : BoardType} : v.as? t = none ↔ v.type ≠ t := by
  simp [as?]

theorem BoardValue.eq_of_as? {v : BoardValue} {t : BoardType} {x : t.Carrier}
    (h : v.as? t = some x) : v = ⟨t, x⟩ := by
  obtain ⟨t', v⟩ := v
  unfold as? at h
  split at h
  · rename_i ht
    cases ht
    cases h
    rfl
  · cases h

/-- How a blackboard answers a request for a component. -/
inductive ComponentAnswer where
  | stored
  /-- With nothing: the host offers no components. -/
  | withheld
  /-- With a value of another type, whatever is asked for. -/
  | foreign
  deriving DecidableEq, Repr

/-- A blackboard. The stream holds what all its sinks received. -/
structure Blackboard where
  values : Dict UInt64 fun _ => BoardValue
  components : Dict ValueType ValueType.Value
  answer : ComponentAnswer
  stream : List TraceEvent

namespace Blackboard

/-- No values, no components; components are answered as stored. -/
def empty : Blackboard := ⟨∅, ∅, .stored, []⟩

/-! ## Values -/

def contains (bb : Blackboard) (key : UInt64) : Bool := bb.values.contains key

def size (bb : Blackboard) : Nat := bb.values.size

def isEmpty (bb : Blackboard) : Bool := bb.values.isEmpty && bb.components.isEmpty

/-- Like `get`, but a missing key is no error. -/
def get? (bb : Blackboard) (t : BoardType) (key : UInt64) :
    Except BoardError (Option t.Carrier) :=
  match bb.values.find? key with
  | none => .ok none
  | some v =>
    match v.as? t with
    | some x => .ok (some x)
    | none => .error (.typeMismatch key t.name)

def get (bb : Blackboard) (t : BoardType) (key : UInt64) : Except BoardError t.Carrier :=
  match bb.get? t key with
  | .ok (some x) => .ok x
  | .ok none => .error (.missingKey key)
  | .error e => .error e

/-- Puts a value under the key; an old value of any type is replaced. -/
def set (bb : Blackboard) (t : BoardType) (key : UInt64) (v : t.Carrier) : Blackboard :=
  { bb with values := bb.values.insert key ⟨t, v⟩ }

def modify (bb : Blackboard) (t : BoardType) (key : UInt64) (f : t.Carrier → t.Carrier) :
    Except BoardError Blackboard := do
  return bb.set t key (f (← bb.get t key))

/-- Takes out the value under the key before its type is known. A value of another type is put back. -/
def remove (bb : Blackboard) (t : BoardType) (key : UInt64) :
    Except BoardError (Option t.Carrier) × Blackboard :=
  match bb.values.find? key with
  | none => (.ok none, bb)
  | some v =>
    let rest := bb.values.erase key
    match v.as? t with
    | some x => (.ok (some x), { bb with values := rest })
    | none => (.error (.typeMismatch key t.name), { bb with values := rest.insert key v })

def removeAny (bb : Blackboard) (key : UInt64) : Bool × Blackboard :=
  (bb.contains key, { bb with values := bb.values.erase key })

def clear (bb : Blackboard) : Blackboard := { bb with values := ∅, components := ∅ }

/-! ## Components -/

def insertComponent (bb : Blackboard) {c : ValueType} (v : c.Value) : Blackboard :=
  { bb with components := bb.components.insert c v }

def removeComponent (bb : Blackboard) (c : ValueType) : Option c.Value × Blackboard :=
  (bb.components.find? c, { bb with components := bb.components.erase c })

def component (bb : Blackboard) (c : ValueType) : Except BoardError c.Value :=
  match bb.answer with
  | .withheld => .error (.missingComponent c.name)
  | .foreign => .error (.componentTypeMismatch c.name)
  | .stored =>
    match bb.components.find? c with
    | some v => .ok v
    | none => .error (.missingComponent c.name)

def modifyComponent (bb : Blackboard) (c : ValueType) (f : c.Value → c.Value) :
    Except BoardError Blackboard := do
  return bb.insertComponent (f (← bb.component c))

/-! ## Trace events -/

def traceLog : UInt64 := 0xb77ace00000001

def traceSink : UInt64 := 0xb77ace00000002

/-- Adds the event to the log, if there is one. -/
def logEvent (bb : Blackboard) (e : TraceEvent) : Except BoardError Blackboard :=
  if bb.contains traceLog then bb.modify .log traceLog (·.push e) else .ok bb

/-- Sends the event to the sink, if there is one. -/
def sendEvent (bb : Blackboard) (e : TraceEvent) : Except BoardError Blackboard :=
  if bb.contains traceSink then do
    let () ← bb.get .sink traceSink
    return { bb with stream := bb.stream ++ [e] }
  else .ok bb

/-- Records an event; the event stays in the log when the sink fails. -/
def emit (bb : Blackboard) (e : TraceEvent) : Blackboard × Except BoardError Unit :=
  match bb.logEvent e with
  | .error err => (bb, .error err)
  | .ok bb =>
    match bb.sendEvent e with
    | .error err => (bb, .error err)
    | .ok bb => (bb, .ok ())

/-- A summary: the keys in ascending order and the number of components. -/
def describe (bb : Blackboard) : String :=
  let keys := ", ".intercalate ((bb.values.keys.map UInt64.toNat).mergeSort.map toString)
  s!"MapBlackboard \x7b keys: [{keys}], components: {bb.components.size} \x7d"

end Blackboard
end BehaviorTree
