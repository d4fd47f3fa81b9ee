import BehaviorTree.Status

/-! Everything that can go wrong, by cause, and the text of each cause. -/
namespace BehaviorTree

inductive BoardError where
  | missingKey (key : UInt64)
  | typeMismatch (key : UInt64) (expected : String)
  | missingComponent (component : String)
  | componentTypeMismatch (component : String)
  deriving DecidableEq, Repr

/-- A quantity that has to fit in 32 bits. -/
inductive Quantity where
  | dataRegion
  | nodeData
  | nodeCount
  | payloadOffset
  deriving DecidableEq, Repr

/-- Why node arrays are no pre-order layout of a tree. -/
inductive Defect where
  | empty
  | lengths (types ends offsets sizes : Nat)
  | rootEnd (stop len : Nat)
  | endIndex (node stop len : Nat)
  | unaligned (node offset : Nat)
  | beyondRegion (node start stop region : Nat)
  | overlap (node start stop next : Nat)
  | childEnd (child parent childStop stop : Nat)
  | tooLarge (what : Quantity) (value : Nat)
  deriving DecidableEq, Repr, Inhabited

/-- The causes for which an operation of the library fails. -/
inductive Error where
  | malformed (defect : Defect)
  | nodeOutOfRange (index len : Nat)
  | unallocatedData (index : Nat)
  | dataOutOfBounds (index offset len size : Nat)
  | misaligned (index offset : Nat) (type : String)
  | headSizeMismatch (type : String) (expected actual : Nat)
  | invalidStatus (bits : UInt8)
  | unallocatedVariable (index : Nat) (variableId : UInt32)
  | unknownVariable (variableId : UInt32) (type : String)
  | duplicateVariable (variableId : UInt32) (type : String)
  | unregisteredVariableType (type : String)
  | board (cause : BoardError)
  | duplicateNodeType (id : TypeId) (existing : String)
  | nodeTypeOutOfRange (id : TypeId) (max : Nat)
  | unknownNodeType (id : TypeId) (index : Nat)
  | indexOutOfRange (index len : Nat)
  | noRunningChild (index : Nat)
  | depthExceeded (index max : Nat)
  | missingChild (index : Nat)
  deriving DecidableEq, Repr, Inhabited

/-- A failed computation: a reported error, or an index outside its array. -/
inductive Fault where
  | error (cause : Error)
  | outOfBounds
  deriving DecidableEq, Repr

/-- A computation on indexed data: every access is checked, and a failed check is a value. -/
abbrev Checked (α : Type) := Except Fault α

namespace Checked

def ofOption {α : Type} : Option α → Checked α
  | some a => .ok a
  | none => .error .outOfBounds

def fail {α : Type} (e : Error) : Checked α := .error (.error e)

def ofExcept {α : Type} : Except Error α → Checked α
  | .ok a => .ok a
  | .error e => fail e

def ofBoard {α : Type} : Except BoardError α → Checked α
  | .ok a => .ok a
  | .error e => fail (.board e)

instance {α : Type} [DecidableEq α] : DecidableEq (Checked α)
  | .ok a, .ok b => decidable_of_iff (a = b) (by simp)
  | .error e, .error f => decidable_of_iff (e = f) (by simp)
  | .ok _, .error _ => isFalse (by simp)
  | .error _, .ok _ => isFalse (by simp)

@[simp] theorem ofOption_some {α : Type} (a : α) : ofOption (some a) = .ok a := rfl

@[simp] theorem ofOption_none {α : Type} : ofOption (none : Option α) = .error .outOfBounds := rfl

end Checked

/-- The result encoded by a byte of node data. -/
def Status.ofBits (b : UInt8) : Except Error Status :=
  match Status.ofBits? b with
  | some s => .ok s
  | none => .error (.invalidStatus b)

/-! ## Texts -/

def hexText (n : Nat) : String := String.ofList (Nat.toDigits 16 n)

/-- Binary digits, at least two. -/
def bitsText (b : UInt8) : String :=
  let digits := Nat.toDigits 2 b.toNat
  String.ofList (if digits.length < 2 then '0' :: digits else digits)

def BoardError.message : BoardError → String
  | missingKey key => s!"blackboard key 0x{hexText key.toNat} is not set"
  | typeMismatch key expected =>
    s!"blackboard type mismatch for key 0x{hexText key.toNat} " ++
      s!"(stored type differs from requested {expected})"
  | missingComponent component => s!"blackboard has no component {component}"
  | componentTypeMismatch component =>
    s!"blackboard component {component} is stored with a different type"

def Quantity.text : Quantity → String
  | dataRegion => "data region"
  | nodeData => "node data"
  | nodeCount => "node count"
  | payloadOffset => "payload offset"

def Defect.message : Defect → String
  | empty => "blob has no nodes"
  | lengths types ends offsets sizes =>
    s!"per-node arrays disagree: {types} types, {ends} end indices, {offsets} offsets, {sizes} sizes"
  | rootEnd stop len => s!"root ends at {stop} but blob has {len} nodes"
  | endIndex node stop len => s!"node {node} has end index {stop} outside ({node}, {len}]"
  | unaligned node offset => s!"node {node} data offset {offset} is unaligned"
  | beyondRegion node start stop region =>
    s!"node {node} data {start}..{stop} exceeds the {region}-byte data region"
  | overlap node start stop next =>
    s!"node {node} data {start}..{stop} runs past node {node + 1} data at {next}"
  | childEnd child parent childStop stop =>
    s!"child {child} of node {parent} ends at {childStop}, outside its parent's range ..{stop}"
  | tooLarge what value => s!"{what.text} too large ({value})"

def Error.message : Error → String
  | malformed defect => s!"malformed node blob: {defect.message}"
  | nodeOutOfRange index len => s!"node {index} is outside the blob ({len} nodes)"
  | unallocatedData index => s!"node {index} has no allocated data"
  | dataOutOfBounds index offset len size =>
    s!"node {index}: {len} bytes at offset {offset} exceed its {size}-byte data"
  | misaligned index offset type =>
    s!"node {index}: data at offset {offset} is not aligned for {type}"
  | headSizeMismatch type expected actual =>
    s!"node data head is {actual} bytes, {type} needs {expected}"
  | invalidStatus bits => s!"invalid node state bits 0b{bitsText bits}"
  | unallocatedVariable index variableId =>
    s!"variable {variableId} of node {index} reads an unallocated offset"
  | unknownVariable variableId type =>
    s!"no {type} variable strategy registered for id {variableId}"
  | duplicateVariable variableId type =>
    s!"{type} variable strategy {variableId} is already registered"
  | unregisteredVariableType type => s!"no variable strategies registered for {type}"
  | board cause => cause.message
  | duplicateNodeType id existing =>
    s!"node type {id.text} is already registered as `{existing}`"
  | nodeTypeOutOfRange id max =>
    s!"node type {id.text} exceeds the largest registrable id {max}"
  | unknownNodeType id index => s!"node {index} has unregistered type {id.text}"
  | indexOutOfRange index len => s!"node index {index} out of range (len {len})"
  | noRunningChild index => s!"parallel node {index} was ticked without a running child"
  | depthExceeded index max => s!"tick depth exceeded {max} at node {index}"
  | missingChild index => s!"node {index} requires a child"

def Fault.message : Fault → String
  | error cause => cause.message
  | outOfBounds => "an index lies outside its array"

end BehaviorTree
