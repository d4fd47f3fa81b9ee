import BehaviorTree.Json.Printer
import BehaviorTree.Json.Reader
import BehaviorTree.Trace

/-! The JSON form of traces. A reset has a kind only, a tick a kind and a state. -/
namespace BehaviorTree

open Json (ofFields ofNat ofText)

/-! ## Writing -/

def NodeEvent.toJson : NodeEvent → Json
  | .reset => ofFields [("kind", ofText "reset")]
  | .tick s => ofFields [("kind", ofText "tick"), ("state", ofText s.name)]

def TraceEvent.toJson (e : TraceEvent) : Json :=
  ofFields [("tick", ofNat e.tick.toNat), ("node", ofNat e.node), ("event", e.event.toJson)]

def TraceLog.toJson (l : TraceLog) : Json :=
  ofFields [("events", .array (l.events.map TraceEvent.toJson))]

def TraceEvent.text (e : TraceEvent) : String := .ofList e.toJson.compact

def TraceLog.text (l : TraceLog) : String := .ofList l.toJson.compact

/-! ## Reading -/

/-- A name written as a string, or as an object whose only key it is; `accept` says which value that
key may have. -/
def Json.choice? (accept : Json → Bool) : Json → Option (List Char)
  | .object [(k, v)] => if accept v then unescape? k else none
  | v => v.text?

def Json.isNull : Json → Bool
  | .null => true
  | _ => false

/-- Null, or an object without fields. -/
def Json.isVoid : Json → Bool
  | .null => true
  | .object [] => true
  | _ => false

inductive EventKind where
  | reset
  | tick

def EventKind.ofName? (name : List Char) : Option EventKind :=
  if name = "reset".toList then some .reset
  else if name = "tick".toList then some .tick
  else none

def EventKind.ofJson? (v : Json) : Option EventKind := do ofName? (← v.choice? Json.isNull)

/-- A result; `accept` says which value the key of an object may have. -/
def Status.ofJson? (accept : Json → Bool) (v : Json) : Option Status := do
  let name ← v.choice? accept
  [Status.success, .failure, .running].find? fun s => s.name.toList = name

/-- The event of a kind with a state; `accept` as for results. -/
def NodeEvent.ofParts? (accept : Json → Bool) : EventKind → Option Json → Option NodeEvent
  | .reset, none => some .reset
  | .reset, some v => if v.isNull then some .reset else none
  | .tick, none => none
  | .tick, some v => (Status.ofJson? accept v).map .tick

def Json.under (key : String) (fields : List (List Char × Json)) : List Json :=
  (fields.filter (·.1 = key.toList)).map (·.2)

/-- Whether the first of the two keys to occur is `key`. -/
def Json.comesFirst (key other : String) (fields : List (List Char × Json)) : Bool :=
  (fields.find? fun f => f.1 = key.toList || f.1 = other.toList).any (·.1 = key.toList)

/-- An event: an array of kind and state, or an object with fields for them in either order. In an
array the kind is a string, and a state that comes before its kind is read more freely. -/
def NodeEvent.ofJson? : Json → Option NodeEvent
  | .array [k, v] => do ofParts? Json.isNull (← EventKind.ofName? (← k.text?)) (some v)
  | .array _ => none
  | v => do
    let fields ← v.fields?
    let accept := if Json.comesFirst "kind" "state" fields then Json.isNull else Json.isVoid
    match Json.under "kind" fields, Json.under "state" fields with
    | [k], [] => ofParts? accept (← EventKind.ofJson? k) none
    | [k], [s] => ofParts? accept (← EventKind.ofJson? k) (some s)
    | _, _ => none

def TraceEvent.ofJson? (v : Json) : Option TraceEvent := do
  match ← v.record? ["tick", "node", "event"] with
  | [t, n, e] =>
    return ⟨UInt64.ofNat (← t.nat? UInt64.size), ← n.nat? UInt64.size, ← NodeEvent.ofJson? e⟩
  | _ => none

def TraceLog.ofJson? (v : Json) : Option TraceLog := do
  match ← v.record? ["events"] with
  | [events] => return ⟨← (← events.items?).mapM TraceEvent.ofJson?⟩
  | _ => none

def TraceLog.ofText? (text : String) : Option TraceLog := do
  ofJson? (← Json.parse? text.toList)

end BehaviorTree
