import BehaviorTree.Blackboard
import BehaviorTree.Instance
import BehaviorTree.Variable.Registry

/-! Reading and changing the value behind a handle. -/
namespace BehaviorTree

namespace Strategy

variable {t : ValueType} {b : Blob}

/-- The payload of the handle `v` of node `i`. -/
def payload {α : Type} (v : Variable) (i : Nat) (s : Instance b) (p : PlainData α) : Checked α := do
  return p.decode (← s.readAt p.type i (← Checked.ofExcept (v.payloadOffset i)))

def read (st : Strategy t) (v : Variable) (i : Nat) (s : Instance b) (bb : Blackboard) :
    Checked t.Value :=
  match st with
  | constant => do s.readAt t i (← Checked.ofExcept (v.payloadOffset i))
  | blackboard => do
    let key ← payload v i s PlainData.u64
    Checked.ofBoard (bb.get (.plain t) key)
  | node => do
    let ref ← payload v i s PlainData.nodeRef
    s.readAt t ref.node.toNat ref.offset.toNat
  | component c field _ => do
    return field.read (← Checked.ofBoard (bb.component c))

/-- Changes the value of the handle `v` of node `i` where it is stored. The memory of the instance starts at
`a`. -/
def modify (st : Strategy t) (v : Variable) (i : Nat) (f : t.Value → t.Value) (s : Instance b) (a : Address)
    (bb : Blackboard) : Checked (Instance b × Blackboard) :=
  match st with
  | constant => do
    return (← s.modifyAt t i (← Checked.ofExcept (v.payloadOffset i)) f a, bb)
  | blackboard => do
    let key ← payload v i s PlainData.u64
    return (s, ← Checked.ofBoard (bb.modify (.plain t) key f))
  | node => do
    let ref ← payload v i s PlainData.nodeRef
    return (← s.modifyAt t ref.node.toNat ref.offset.toNat f a, bb)
  | component c field _ => do
    return (s, ← Checked.ofBoard (bb.modifyComponent c fun x => field.write x (f (field.read x))))

end Strategy

namespace Variable

variable {b : Blob}

def read (v : Variable) (rs : Registries) (t : ValueType) (i : Nat) (s : Instance b)
    (bb : Blackboard) : Checked t.Value := do
  (← Checked.ofExcept (rs.strategy t v.id)).read v i s bb

def modify (v : Variable) (rs : Registries) (t : ValueType) (i : Nat) (f : t.Value → t.Value)
    (s : Instance b) (a : Address) (bb : Blackboard) : Checked (Instance b × Blackboard) := do
  (← Checked.ofExcept (rs.strategy t v.id)).modify v i f s a bb

def access (v : Variable) (rs : Registries) (t : ValueType) : Except Error AccessList := do
  return (← rs.strategy t v.id).access

end Variable
end BehaviorTree
