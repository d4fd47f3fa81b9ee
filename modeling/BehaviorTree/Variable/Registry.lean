import BehaviorTree.Access
import BehaviorTree.Dict
import BehaviorTree.Error
import BehaviorTree.Variable.Handle

/-! Strategies that find a variable's value, registered per value type; the first one for an id stays. -/
namespace BehaviorTree

/-- A field of type `t` in components of type `c`. -/
structure Field (c t : ValueType) where
  read : c.Value → t.Value
  write : c.Value → t.Value → c.Value
  read_write : ∀ x v, read (write x v) = v

/-- The field that is the whole component. -/
def Field.whole {c t : ValueType} (h : c.size = t.size) : Field c t where
  read x := ⟨x.1, x.2.trans h⟩
  write _ v := ⟨v.1, v.2.trans h.symm⟩
  read_write _ _ := rfl

/-- How a variable of type `t` is found. -/
inductive Strategy (t : ValueType) where
  /-- In the node's own data. -/
  | constant
  /-- On the blackboard, under the key in the payload. -/
  | blackboard
  /-- In the data of the node named by the payload. -/
  | node
  /-- In a host component. -/
  | component (c : ValueType) (field : Field c t) (mode : AccessMode)

namespace Strategy

variable {t : ValueType}

def name : Strategy t → String
  | constant => "constant"
  | blackboard => "blackboard"
  | node => "node"
  | component .. => "component"

def access : Strategy t → AccessList
  | component c _ mode => .ofList [⟨c, mode⟩]
  | _ => .empty

end Strategy

/-- The strategies for one value type, by id. -/
abbrev Registry (t : ValueType) := Dict UInt32 fun _ => Strategy t

namespace Registry

variable {t : ValueType}

/-- Adds a strategy unless its id is taken. -/
def register (r : Registry t) (id : UInt32) (s : Strategy t) : Except Error (Registry t) :=
  if r.contains id then .error (.duplicateVariable id t.name) else .ok (r.insert id s)

def strategy (r : Registry t) (id : UInt32) : Except Error (Strategy t) :=
  match r.find? id with
  | some s => .ok s
  | none => .error (.unknownVariable id t.name)

/-- Adds a strategy if its id is free. -/
def ensure (r : Registry t) (id : UInt32) (s : Strategy t) : Registry t :=
  if r.contains id then r else r.insert id s

/-- Adds the strategies of the library where their ids are free. -/
def ensureBuiltin (r : Registry t) : Registry t :=
  ((r.ensure Variable.constantId .constant).ensure Variable.blackboardId .blackboard).ensure
    Variable.nodeId .node

/-- The ids in use, in ascending order. -/
def ids (r : Registry t) : List UInt32 := r.keys.mergeSort (· ≤ ·)

end Registry

/-- The registries of all value types that were ever asked for. -/
structure Registries where
  byType : Dict ValueType Registry

namespace Registries

def empty : Registries := ⟨∅⟩

def registry (rs : Registries) (t : ValueType) : Except Error (Registry t) :=
  match rs.byType.find? t with
  | some r => .ok r
  | none => .error (.unregisteredVariableType t.name)

/-- The registry of `t`, empty if there is none yet. -/
def registryD (rs : Registries) (t : ValueType) : Registry t := (rs.byType.find? t).getD ∅

def put (rs : Registries) {t : ValueType} (r : Registry t) : Registries :=
  ⟨rs.byType.insert t r⟩

/-- Makes sure that `t` has a registry. -/
def touch (rs : Registries) (t : ValueType) : Registries := rs.put (rs.registryD t)

/-- Adds a strategy; the type has a registry afterwards, also on failure. -/
def register (rs : Registries) {t : ValueType} (id : UInt32) (s : Strategy t) :
    Registries × Except Error Unit :=
  match (rs.registryD t).register id s with
  | .ok r => (rs.put r, .ok ())
  | .error e => (rs.touch t, .error e)

/-- Adds strategies one by one up to the first failure. -/
def registerAll (rs : Registries) {t : ValueType} :
    List (UInt32 × Strategy t) → Registries × Except Error Unit
  | [] => (rs, .ok ())
  | (id, s) :: rest =>
    match rs.register id s with
    | (rs, .ok ()) => rs.registerAll rest
    | (rs, .error e) => (rs, .error e)

/-- Adds the strategies of the library, up to the first id that is taken. -/
def registerBuiltin (rs : Registries) (t : ValueType) : Registries × Except Error Unit :=
  rs.registerAll [(Variable.constantId, (.constant : Strategy t)),
    (Variable.blackboardId, .blackboard), (Variable.nodeId, .node)]

/-- Adds the strategies of the library whose ids are free. -/
def ensureBuiltin (rs : Registries) (t : ValueType) : Registries :=
  rs.put (rs.registryD t).ensureBuiltin

/-- Adds a strategy that reads a field of a host component. -/
def registerComponent (rs : Registries) {c t : ValueType} (id : UInt32) (field : Field c t)
    (mode : AccessMode) : Registries × Except Error Unit :=
  rs.register id (.component c field mode)

def isRegistered (rs : Registries) (t : ValueType) (id : UInt32) : Bool :=
  match rs.byType.find? t with
  | some r => r.contains id
  | none => false

def strategy (rs : Registries) (t : ValueType) (id : UInt32) : Except Error (Strategy t) := do
  (← rs.registry t).strategy id

/-- The names of the types with a registry, sorted. -/
def valueTypes (rs : Registries) : List String :=
  (rs.byType.keys.map (·.name)).mergeSort (fun a b => !(b < a))

def describe (rs : Registries) : String :=
  let types := ", ".intercalate (rs.valueTypes.map fun name => s!"\"{name}\"")
  s!"VariableRegistries \x7b value_types: [{types}] \x7d"

end Registries
end BehaviorTree
