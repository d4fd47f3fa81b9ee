import BehaviorTree.Proofs.Checked
import BehaviorTree.Proofs.Instance.Cells
import BehaviorTree.Variable.Resolve

/-!
# Variables over cells

The value of a variable, found in a list of cells and on a blackboard.
-/

namespace BehaviorTree

/-- The value of type `t` at `offset` in the cell of node `i`. -/
def readCell (cells : List Cell) (t : ValueType) (i offset : Nat) : Except Error t.Value :=
  match cells[i]? with
  | some c => c.read t i offset
  | none => .error (.nodeOutOfRange i cells.length)

namespace Strategy

variable {t : ValueType}

/-- The payload of the handle `v` of node `i`. -/
def payloadIn {α : Type} (v : Variable) (i : Nat) (cells : List Cell) (p : PlainData α) :
    Except Error α := do
  let offset ← v.payloadOffset i
  return p.decode (← readCell cells p.type i offset)

def lookup (st : Strategy t) (v : Variable) (i : Nat) (cells : List Cell) (bb : Blackboard) :
    Except Error t.Value :=
  match st with
  | constant => do
    let offset ← v.payloadOffset i
    readCell cells t i offset
  | blackboard => do
    let key ← payloadIn v i cells PlainData.u64
    (bb.get (.plain t) key).mapError .board
  | node => do
    let ref ← payloadIn v i cells PlainData.nodeRef
    readCell cells t ref.node.toNat ref.offset.toNat
  | component c field _ => do
    return field.read (← (bb.component c).mapError .board)

end Strategy

def Variable.lookup (v : Variable) (rs : Registries) (t : ValueType) (i : Nat) (cells : List Cell)
    (bb : Blackboard) : Except Error t.Value := do
  let st ← rs.strategy t v.id
  st.lookup v i cells bb

/-! ## Agreement with the instance -/

namespace Checked

variable {α β : Type}

theorem ofExcept_bind (x : Except Error α) (f : α → Except Error β) :
    ofExcept (x >>= f) = ofExcept x >>= fun a => ofExcept (f a) := by
  cases x with
  | ok a => rfl
  | error e => rfl

theorem ofExcept_map (f : α → β) (x : Except Error α) : ofExcept (x.map f) = (ofExcept x).map f := by
  cases x with
  | ok a => rfl
  | error e => rfl

theorem ofBoard_eq (x : Except BoardError α) : ofBoard x = ofExcept (x.mapError .board) := by
  cases x with
  | ok a => rfl
  | error e => rfl

end Checked

variable {b : Blob} {t : ValueType} {v : Variable} {i : Nat}

theorem Instance.readAt_eq_readCell (s : Instance b) (t : ValueType) (i o : Nat) :
    s.readAt t i o = Checked.ofExcept (readCell s.cells t i o) := by
  unfold readCell
  rcases Nat.lt_or_ge i b.size with hi | hi
  · rw [s.readAt_eq hi, s.getElem?_cells hi]
  · rw [s.readAt_of_le hi, s.getElem?_cells_of_le hi, s.length_cells]
    rfl

namespace Strategy

theorem payload_eq {α : Type} (v : Variable) (i : Nat) (s : Instance b) (p : PlainData α) :
    payload v i s p = Checked.ofExcept (payloadIn v i s.cells p) := by
  unfold payload payloadIn
  simp only [Checked.ofExcept_bind, s.readAt_eq_readCell]
  rfl

theorem read_eq_lookup (st : Strategy t) (v : Variable) (i : Nat) (s : Instance b) (bb : Blackboard) :
    st.read v i s bb = Checked.ofExcept (st.lookup v i s.cells bb) := by
  unfold read lookup
  cases st with
  | constant => simp only [Checked.ofExcept_bind, s.readAt_eq_readCell]
  | blackboard => simp only [payload_eq, Checked.ofExcept_bind, Checked.ofBoard_eq]
  | node => simp only [payload_eq, Checked.ofExcept_bind, s.readAt_eq_readCell]
  | component c field mode =>
      simp only [Checked.ofBoard_eq, Checked.ofExcept_bind]
      rfl

end Strategy

theorem Variable.read_eq_lookup (v : Variable) (rs : Registries) (t : ValueType) (i : Nat)
    (s : Instance b) (bb : Blackboard) :
    v.read rs t i s bb = Checked.ofExcept (v.lookup rs t i s.cells bb) := by
  unfold Variable.read Variable.lookup
  rw [Checked.ofExcept_bind]
  simp only [Strategy.read_eq_lookup]

end BehaviorTree
