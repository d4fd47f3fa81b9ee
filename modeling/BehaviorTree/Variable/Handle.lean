import BehaviorTree.NodeData

/-!
Variable handles: two numbers in node data that say how a value is found and where the payload for it
lies in the same data.
-/
namespace BehaviorTree

/-- A handle: `id` selects the strategy, `offset` its payload, 0 for none. -/
structure Variable where
  id : UInt32
  offset : UInt32
  deriving DecidableEq, Repr, Inhabited

/-- A place in the data of another node. -/
structure NodeRef where
  node : UInt32
  offset : UInt32
  deriving DecidableEq, Repr

namespace PlainData

def nodeRef : PlainData NodeRef :=
  (pair u32 u32).rename "NodeDataRef" (fun x => ⟨x.1, x.2⟩) (fun r => (r.node, r.offset))
    (fun _ => rfl) (fun _ => rfl)

/-- A handle may start at any byte. -/
def handle : PlainData Variable :=
  (pair u32 u32).packed.rename "BlobVariable" (fun x => ⟨x.1, x.2⟩) (fun v => (v.id, v.offset))
    (fun _ => rfl) (fun _ => rfl)

end PlainData

namespace Variable

/-- The strategy ids that come with the library. -/
def constantId : UInt32 := 1
def blackboardId : UInt32 := 2
def nodeId : UInt32 := 3

def isAllocated (v : Variable) : Bool := v.offset != 0

/-- Where the payload lies in the data of node `i`. -/
def payloadOffset (v : Variable) (i : Nat) : Except Error Nat :=
  if v.isAllocated then .ok v.offset.toNat else .error (.unallocatedVariable i v.id)

/-- A handle with a payload that is added to `d`. -/
def alloc (d : NodeData) (id : UInt32) {t : ValueType} (payload : t.Value) :
    Except Error (Variable × NodeData) := do
  let (offset, d) ← d.alloc payload
  return (⟨id, offset⟩, d)

/-- A variable with a value of its own in the node's data. -/
def constant (d : NodeData) {t : ValueType} (value : t.Value) : Except Error (Variable × NodeData) :=
  alloc d constantId value

/-- A variable that is the blackboard value under a key. -/
def blackboard (d : NodeData) (key : UInt64) : Except Error (Variable × NodeData) :=
  alloc d blackboardId (PlainData.u64.encode key)

/-- A variable that lies in the data of another node. -/
def node (d : NodeData) (ref : NodeRef) : Except Error (Variable × NodeData) :=
  alloc d nodeId (PlainData.nodeRef.encode ref)

/-- A variable that is a component's field; it needs no payload. -/
def component (id : UInt32) : Variable := ⟨id, 0⟩

def describe (v : Variable) (t : ValueType) : String :=
  s!"BlobVariable \x7b type: \"{t.name}\", variable_id: {v.id}, offset: {v.offset} \x7d"

end Variable
end BehaviorTree
