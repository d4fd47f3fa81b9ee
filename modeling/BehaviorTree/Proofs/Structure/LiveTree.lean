import BehaviorTree.Proofs.Instance.Cells
import BehaviorTree.Proofs.Layout.Outline

/-!
# Trees in use

The structural counterpart of an instance: every node of the tree holds its own cell. In pre-order, the cells
are those of the instance.
-/

namespace BehaviorTree

/-- A tree whose nodes hold, beside their type and default data, what is kept for them. -/
inductive LiveTree where
  | node (type : TypeId) (defaults : List UInt8) (cell : Cell) (children : List LiveTree)

namespace LiveTree

def type : LiveTree → TypeId
  | node type _ _ _ => type

def cell : LiveTree → Cell
  | node _ _ cell _ => cell

def children : LiveTree → List LiveTree
  | node _ _ _ children => children

/-- What passes from the children of a node to the node holds of every tree. -/
@[elab_as_elim, induction_eliminator]
theorem induct {motive : LiveTree → Prop}
    (node : ∀ type defaults cell children, (∀ t ∈ children, motive t) →
      motive (.node type defaults cell children)) : ∀ t, motive t
  | .node type defaults cell children => node type defaults cell children fun t _ => induct node t

mutual

/-- Default data and no results. -/
def fresh : Blueprint → LiveTree
  | .node type data children => node type data ⟨none, data⟩ (freshAll children)

def freshAll : List Blueprint → List LiveTree
  | [] => []
  | t :: ts => fresh t :: freshAll ts

end

mutual

/-- The tree without what is kept for its nodes. -/
def shape : LiveTree → Blueprint
  | node type defaults _ children => .node type defaults (shapeAll children)

def shapeAll : List LiveTree → List Blueprint
  | [] => []
  | t :: ts => shape t :: shapeAll ts

end

mutual

def cells : LiveTree → List Cell
  | node _ _ cell children => cell :: cellsAll children

def cellsAll : List LiveTree → List Cell
  | [] => []
  | t :: ts => cells t ++ cellsAll ts

end

mutual

/-- The tree with all its nodes inactive. -/
def clear : LiveTree → LiveTree
  | node type defaults cell children => node type defaults cell.clear (clearAll children)

def clearAll : List LiveTree → List LiveTree
  | [] => []
  | t :: ts => clear t :: clearAll ts

end

/-- The tree made inactive if its root is running. -/
def abort (t : LiveTree) : LiveTree := if t.cell.state = some .running then t.clear else t

/-! ## Shapes -/

mutual

@[simp] theorem shape_fresh (t : Blueprint) : (fresh t).shape = t := by
  match t with
  | .node type data children => rw [fresh, shape, shapeAll_freshAll children]

@[simp] theorem shapeAll_freshAll (ts : List Blueprint) : shapeAll (freshAll ts) = ts := by
  match ts with
  | [] => rfl
  | t :: ts => rw [freshAll, shapeAll, shape_fresh t, shapeAll_freshAll ts]

end

mutual

@[simp] theorem shape_clear (t : LiveTree) : t.clear.shape = t.shape := by
  match t with
  | node _ _ _ children => rw [clear, shape, shape, shapeAll_clearAll children]

@[simp] theorem shapeAll_clearAll (ts : List LiveTree) : shapeAll (clearAll ts) = shapeAll ts := by
  match ts with
  | [] => rfl
  | t :: ts => rw [clearAll, shapeAll, shapeAll, shape_clear t, shapeAll_clearAll ts]

end

@[simp] theorem shape_abort (t : LiveTree) : t.abort.shape = t.shape := by
  unfold abort
  split
  · exact shape_clear t
  · rfl

@[simp] theorem shapeAll_map_abort (ts : List LiveTree) : shapeAll (ts.map abort) = shapeAll ts := by
  induction ts with
  | nil => rfl
  | cons t ts ih => rw [List.map_cons, shapeAll, shapeAll, shape_abort, ih]

theorem shapeAll_eq_map (ts : List LiveTree) : shapeAll ts = ts.map shape := by
  induction ts with
  | nil => rfl
  | cons t ts ih => rw [shapeAll, List.map_cons, ih]

theorem length_shapeAll (ts : List LiveTree) : (shapeAll ts).length = ts.length := by
  rw [shapeAll_eq_map, List.length_map]

theorem clearAll_eq_map (ts : List LiveTree) : clearAll ts = ts.map clear := by
  induction ts with
  | nil => rfl
  | cons t ts ih => rw [clearAll, List.map_cons, ih]

/-! ## Cells -/

theorem cells_eq_cons (t : LiveTree) : ∃ cs, t.cells = t.cell :: cs := by
  cases t with
  | node _ _ _ _ => exact ⟨_, rfl⟩

mutual

@[simp] theorem length_cells (t : LiveTree) : t.cells.length = t.shape.size := by
  match t with
  | node _ _ _ children =>
      rw [cells, shape, Blueprint.size, List.length_cons, length_cellsAll children, Nat.add_comm]

@[simp] theorem length_cellsAll (ts : List LiveTree) :
    (cellsAll ts).length = Blueprint.sizeAll (shapeAll ts) := by
  match ts with
  | [] => rfl
  | t :: ts =>
      rw [cellsAll, shapeAll, Blueprint.sizeAll, List.length_append, length_cells t, length_cellsAll ts]

end

theorem cellsAll_append (ts us : List LiveTree) : cellsAll (ts ++ us) = cellsAll ts ++ cellsAll us := by
  induction ts with
  | nil => rfl
  | cons t ts ih => rw [List.cons_append, cellsAll, cellsAll, ih, List.append_assoc]

mutual

@[simp] theorem cells_clear (t : LiveTree) : t.clear.cells = t.cells.map Cell.clear := by
  match t with
  | node _ _ _ children => rw [clear, cells, cells, List.map_cons, cellsAll_clearAll children]

@[simp] theorem cellsAll_clearAll (ts : List LiveTree) :
    cellsAll (clearAll ts) = (cellsAll ts).map Cell.clear := by
  match ts with
  | [] => rfl
  | t :: ts =>
      rw [clearAll, cellsAll, cellsAll, List.map_append, cells_clear t, cellsAll_clearAll ts]

end

end LiveTree

end BehaviorTree
