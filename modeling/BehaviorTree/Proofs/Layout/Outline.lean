import BehaviorTree.Blob.Blueprint
import BehaviorTree.Proofs.Instance.Cell

/-!
# The tree that a blob draws

`b.Draws i t`: the subtree of node `i` is laid out like the blueprint `t`. Every valid blob draws one tree
from its root, and `outline` reads it off.
-/

namespace BehaviorTree

namespace Blueprint

def type : Blueprint → TypeId
  | node type _ _ => type

def data : Blueprint → List UInt8
  | node _ data _ => data

def children : Blueprint → List Blueprint
  | node _ _ children => children

/-- Where the trees start, laid out one after the other from `i` on. -/
def roots : Nat → List Blueprint → List Nat
  | _, [] => []
  | i, t :: ts => i :: roots (i + t.size) ts

theorem size_pos (t : Blueprint) : 0 < t.size := by
  cases t with
  | node _ _ _ =>
      rw [size]
      omega

theorem length_roots : ∀ (ts : List Blueprint) (i : Nat), (roots i ts).length = ts.length
  | [], _ => rfl
  | t :: ts, i => congrArg Nat.succ (length_roots ts (i + t.size))

end Blueprint

namespace Blob

mutual

def Draws (b : Blob) : Nat → Blueprint → Prop
  | i, .node type data children => i < b.size ∧ b.typeOf i = .ok type ∧ b.defaults i = data ∧
    b.stop i = i + 1 + Blueprint.sizeAll children ∧ DrawsAll b (i + 1) children

def DrawsAll (b : Blob) : Nat → List Blueprint → Prop
  | _, [] => True
  | i, t :: ts => Draws b i t ∧ DrawsAll b (i + t.size) ts

end

variable {b : Blob} {i j : Nat} {t : Blueprint}

theorem Draws.lt (h : b.Draws i t) : i < b.size := by
  cases t with
  | node _ _ _ => exact h.1

theorem Draws.type (h : b.Draws i t) : b.typeOf i = .ok t.type := by
  cases t with
  | node _ _ _ => exact h.2.1

theorem Draws.data (h : b.Draws i t) : b.defaults i = t.data := by
  cases t with
  | node _ _ _ => exact h.2.2.1

theorem Draws.stop (h : b.Draws i t) : b.stop i = i + t.size := by
  cases t with
  | node _ _ children =>
      rw [h.2.2.2.1, Blueprint.size]
      omega

theorem DrawsAll.tiles : ∀ {ts : List Blueprint} {i : Nat}, b.DrawsAll i ts →
    b.Tiles (i + Blueprint.sizeAll ts) i (Blueprint.roots i ts)
  | [], _, _ => rfl
  | t :: ts, i, h => by
      have hpos := t.size_pos
      rw [Blueprint.sizeAll, ← Nat.add_assoc]
      refine ⟨rfl, ?_, ?_, ?_⟩
      · rw [h.1.stop]
        omega
      · rw [h.1.stop]
        omega
      · rw [h.1.stop]
        exact DrawsAll.tiles h.2

theorem Draws.childList (h : b.Draws i t) : b.childList i = Blueprint.roots (i + 1) t.children := by
  cases t with
  | node type data children =>
      have ht := h.2.2.2.2.tiles
      rw [← h.2.2.2.1] at ht
      exact (Blob.tiles h.1).unique ht

mutual

/-- What passes from a tree to its children holds of the tree drawn at each node. -/
theorem Draws.exists_at {P : Blueprint → Prop} (hP : ∀ t, P t → ∀ c ∈ t.children, P c) :
    ∀ {t : Blueprint} {i : Nat}, b.Draws i t → P t → ∀ j, i ≤ j → j < i + t.size →
      ∃ t', P t' ∧ b.Draws j t'
  | .node type data children, i, h, ht, j, hij, hj => by
      rcases Nat.eq_or_lt_of_le hij with rfl | hlt
      · exact ⟨_, ht, h⟩
      · rw [Blueprint.size, ← Nat.add_assoc] at hj
        exact DrawsAll.exists_at hP h.2.2.2.2 (hP _ ht) j hlt hj

theorem DrawsAll.exists_at {P : Blueprint → Prop} (hP : ∀ t, P t → ∀ c ∈ t.children, P c) :
    ∀ {ts : List Blueprint} {i : Nat}, b.DrawsAll i ts → (∀ t ∈ ts, P t) → ∀ j, i ≤ j →
      j < i + Blueprint.sizeAll ts → ∃ t', P t' ∧ b.Draws j t'
  | [], i, _, _, j, hij, hj => by
      rw [Blueprint.sizeAll] at hj
      omega
  | t :: ts, i, h, hts, j, hij, hj => by
      rw [List.forall_mem_cons] at hts
      rw [Blueprint.sizeAll, ← Nat.add_assoc] at hj
      rcases Nat.lt_or_ge j (i + t.size) with hlt | hge
      · exact Draws.exists_at hP h.1 hts.1 j hij hlt
      · exact DrawsAll.exists_at hP h.2 hts.2 j hge hj

end

end Blob

/-! ## Reading the tree -/

/-- The tree from node `i` on, by types, default data and children; `room` bounds its height. -/
def Layout.outlineFrom (l : Layout) : (room i : Nat) → Checked Blueprint
  | 0, _ => .error .outOfBounds
  | room + 1, i => do
    let type ← l.typeOf i
    let data ← l.defaultBytes i
    let children ← l.children i
    return .node type data (← children.mapM (l.outlineFrom room))

def Layout.outline (l : Layout) : Checked Blueprint := l.outlineFrom l.size 0

namespace Blob

variable {b : Blob}

theorem typeOf_eq {i : Nat} (hi : i < b.size) : ∃ type, b.typeOf i = .ok type :=
  ⟨b.types[i], by rw [Layout.typeOf, Array.getElem?_eq_getElem hi]; rfl⟩

theorem typeOf_eq_ok_iff {i : Nat} {type : TypeId} : b.typeOf i = .ok type ↔ b.types[i]? = some type := by
  rw [Layout.typeOf]
  cases b.types[i]? with
  | none => simp
  | some x => simp

theorem outline_all {f : Nat → Checked Blueprint} {hi : Nat} : ∀ {cs : List Nat} {lo : Nat},
    b.Tiles hi lo cs → (∀ c ∈ cs, ∃ t, f c = .ok t ∧ b.Draws c t) →
    ∃ ts, cs.mapM f = .ok ts ∧ b.DrawsAll lo ts ∧ hi = lo + Blueprint.sizeAll ts
  | [], lo, ht, _ => ⟨[], rfl, trivial, ht.symm⟩
  | c :: cs, lo, ⟨hc, _, _, ht⟩, hf => by
      subst hc
      rw [List.forall_mem_cons] at hf
      obtain ⟨⟨t, hft, hdraw⟩, hrest⟩ := hf
      obtain ⟨ts, hts, hall, hhi⟩ := outline_all ht hrest
      rw [hdraw.stop] at hall hhi
      refine ⟨t :: ts, ?_, ⟨hdraw, hall⟩, by rw [hhi, Blueprint.sizeAll]; omega⟩
      rw [List.mapM_cons, hft, hts]
      rfl

theorem outlineFrom_draws : ∀ i < b.size, ∀ room, b.stop i ≤ i + room →
    ∃ t, b.outlineFrom room i = .ok t ∧ b.Draws i t := by
  refine subtree_induction fun i hi ih room hroom => ?_
  have hlt := lt_stop hi
  cases room with
  | zero => omega
  | succ room =>
      obtain ⟨type, htype⟩ := typeOf_eq hi
      have hbelow : ∀ c ∈ b.childList i, ∃ t, b.outlineFrom room c = .ok t ∧ b.Draws c t :=
        fun c hc => ih c hc room (by have := lt_of_mem_childList hi hc; omega)
      obtain ⟨ts, hts, hall, hstop⟩ := outline_all (tiles hi) hbelow
      refine ⟨.node type (b.defaults i) ts, ?_, hi, htype, rfl, hstop, hall⟩
      rw [Layout.outlineFrom, htype, Checked.ok_bind, defaultBytes_eq hi, Checked.ok_bind,
        children_eq hi, Checked.ok_bind, hts]
      rfl

/-- Every valid blob has an outline, and draws it. -/
theorem exists_outline (b : Blob) : ∃ t, b.outline = .ok t ∧ b.Draws 0 t :=
  outlineFrom_draws 0 b.size_pos b.size (by rw [b.stop_root]; omega)

end Blob

end BehaviorTree
