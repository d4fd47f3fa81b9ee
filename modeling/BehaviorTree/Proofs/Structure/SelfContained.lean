import Mathlib.Data.List.Forall2
import BehaviorTree.Proofs.Library.Twins
import BehaviorTree.Proofs.Structure.Interpreter

/-!
# Trees that stand by themselves

A tree is self-contained if none of its nodes reads data of another one. It is quiet if none is running, and
blank if none has a recorded result, as all trees are that are new or were made inactive.
-/

namespace BehaviorTree

open Library

/-- A node of this type with this data reads no data of other nodes: it is no timer with a handle for one. -/
def Registries.SelfContained (rs : Registries) (type : TypeId) (bs : List UInt8) : Prop :=
  type = delayId → ∀ v ∈ delayHandles bs, rs.strategy PlainData.f32.type v.id ≠ .ok .node

theorem Registries.SelfContained.of_ne {type : TypeId} (h : type ≠ delayId) (rs : Registries) (bs : List UInt8) :
    rs.SelfContained type bs := fun hd => absurd hd h

namespace Blueprint

/-- All nodes are of types of the library, and none reads data of another node. -/
inductive SelfContained (rs : Registries) : Blueprint → Prop
  | node {type : TypeId} {data : List UInt8} {children : List Blueprint} : type ∈ Library.behaviors.map (·.1) →
      rs.SelfContained type data → (∀ t ∈ children, SelfContained rs t) → SelfContained rs (.node type data children)

mutual

/-- The number of nodes on the longest path down. -/
def height : Blueprint → Nat
  | node _ _ children => 1 + heightAll children

def heightAll : List Blueprint → Nat
  | [] => 0
  | t :: ts => max t.height (heightAll ts)

end

theorem height_le_heightAll {t : Blueprint} : ∀ {ts : List Blueprint}, t ∈ ts → t.height ≤ heightAll ts
  | u :: us, h => by
      rw [heightAll]
      rcases List.mem_cons.mp h with rfl | h
      · exact Nat.le_max_left _ _
      · exact Nat.le_trans (height_le_heightAll h) (Nat.le_max_right _ _)

end Blueprint

/-! ## Quiet and blank trees -/

namespace LiveTree

variable {rs : Registries} {limit depth : Nat} {t t' : LiveTree} {ts ts' : List LiveTree} {bb : Blackboard}

theorem shape_mem {t : LiveTree} : ∀ {ts : List LiveTree}, t ∈ ts → t.shape ∈ shapeAll ts
  | u :: us, h => by
      rw [shapeAll]
      rcases List.mem_cons.mp h with rfl | h
      · exact List.mem_cons_self
      · exact List.mem_cons_of_mem _ (shape_mem h)

theorem mem_cellsAll {c : Cell} : c ∈ cellsAll ts ↔ ∃ t ∈ ts, c ∈ t.cells := by
  induction ts with
  | nil => simp [cellsAll]
  | cons t ts ih => simp [cellsAll, ih]

theorem forall_cells_node {P : Cell → Prop} {type : TypeId} {defaults : List UInt8} {c : Cell} :
    (∀ x ∈ (node type defaults c ts).cells, P x) ↔ P c ∧ ∀ t ∈ ts, ∀ x ∈ t.cells, P x := by
  simp only [cells, List.forall_mem_cons, mem_cellsAll]
  exact and_congr_right fun _ => ⟨fun h t ht x hx => h x ⟨t, ht, hx⟩, fun h x ⟨t, ht, hx⟩ => h t ht x hx⟩

/-- No node is running. -/
def Quiet (t : LiveTree) : Prop := ∀ c ∈ t.cells, c.state ≠ some .running

/-- No node has a recorded result. -/
def Blank (t : LiveTree) : Prop := ∀ c ∈ t.cells, c.state = none

theorem quiet_node {type : TypeId} {defaults : List UInt8} {c : Cell} :
    (node type defaults c ts).Quiet ↔ c.state ≠ some .running ∧ ∀ t ∈ ts, t.Quiet := forall_cells_node

theorem blank_node {type : TypeId} {defaults : List UInt8} {c : Cell} :
    (node type defaults c ts).Blank ↔ c.state = none ∧ ∀ t ∈ ts, t.Blank := forall_cells_node

theorem Blank.quiet (h : t.Blank) : t.Quiet := fun c hc hr => by
  rw [h c hc] at hr
  cases hr

theorem blank_clear (t : LiveTree) : t.clear.Blank := by
  intro c hc
  rw [cells_clear] at hc
  obtain ⟨c', -, rfl⟩ := List.mem_map.mp hc
  rfl

mutual

theorem blank_fresh (t : Blueprint) : (fresh t).Blank := by
  match t with
  | .node type data children =>
      rw [fresh, blank_node]
      exact ⟨rfl, blank_freshAll children⟩

theorem blank_freshAll (ts : List Blueprint) : ∀ t ∈ freshAll ts, t.Blank := by
  match ts with
  | [] => exact fun _ ht => absurd ht List.not_mem_nil
  | t :: ts =>
      rw [freshAll, List.forall_mem_cons]
      exact ⟨blank_fresh t, blank_freshAll ts⟩

end

theorem state_reset (kind : NodeKind) (c : Cell) : (kind.reset c).state = c.state := by
  cases kind <;> rfl

mutual

theorem blank_start (i : Nat) (t : LiveTree) (h : t.Blank) : (t.start i).2.Blank := by
  match t with
  | node type defaults cell children =>
      rw [start]
      split
      · exact h
      · rw [blank_node] at h ⊢
        exact ⟨(state_reset _ cell).trans h.1, blank_startAll (i + 1) children h.2⟩

theorem blank_startAll (i : Nat) (ts : List LiveTree) (h : ∀ t ∈ ts, t.Blank) :
    ∀ t ∈ (startAll i ts).2, t.Blank := by
  match ts with
  | [] => exact h
  | t :: ts =>
      rw [List.forall_mem_cons] at h
      rw [startAll]
      simp only
      split
      · exact List.forall_mem_cons.mpr ⟨blank_start i t h.1, h.2⟩
      · exact List.forall_mem_cons.mpr ⟨blank_start i t h.1, blank_startAll _ ts h.2⟩

end

/-- A reset leaves no results, unless the type of the root is unknown. -/
theorem blank_reset {kind : NodeKind} (h : NodeKind.ofType? t.type = some kind) : t.reset.2.Blank := by
  rw [reset, h]
  exact blank_start 0 _ (blank_fresh t.shape)

/-! ## Trees side by side -/

/-- What two lists of trees have in common, tree by tree, if the layouts of the second one are those of the first
one changed by `f`. -/
theorem forall₂_of_shapes_map {f : Blueprint → Blueprint} {R : LiveTree → LiveTree → Prop} :
    ∀ {ts ts' : List LiveTree}, shapeAll ts' = (shapeAll ts).map f →
    (∀ t ∈ ts, ∀ t' ∈ ts', t'.shape = f t.shape → R t t') → List.Forall₂ R ts ts'
  | [], [], _, _ => .nil
  | [], t' :: ts', h, _ => by cases h
  | t :: ts, [], h, _ => by cases h
  | t :: ts, t' :: ts', h, hR => by
      rw [shapeAll, shapeAll, List.map_cons, List.cons.injEq] at h
      exact .cons (hR t List.mem_cons_self t' List.mem_cons_self h.1) (forall₂_of_shapes_map h.2
        fun u hu u' hu' => hR u (List.mem_cons_of_mem _ hu) u' (List.mem_cons_of_mem _ hu'))

theorem forall₂_of_shapes {R : LiveTree → LiveTree → Prop} (h : shapeAll ts' = shapeAll ts)
    (hR : ∀ t ∈ ts, ∀ t' ∈ ts', t'.shape = t.shape → R t t') : List.Forall₂ R ts ts' :=
  forall₂_of_shapes_map (f := id) (by rw [List.map_id, h]) hR

theorem shapes_of_forall₂ (h : List.Forall₂ (fun t t' => t'.shape = t.shape) ts ts') : shapeAll ts' = shapeAll ts := by
  induction h with
  | nil => rfl
  | cons ht _ ih => rw [shapeAll, shapeAll, ht, ih]

theorem forall₂_of_mem {R S : LiveTree → LiveTree → Prop} (h : List.Forall₂ R ts ts')
    (hS : ∀ t ∈ ts, ∀ t', R t t' → S t t') : List.Forall₂ S ts ts' := by
  induction h with
  | nil => exact .nil
  | cons ht _ ih =>
      rw [List.forall_mem_cons] at hS
      exact .cons (hS.1 _ ht) (ih hS.2)

/-! ## Ticks -/

theorem state_of_conclude {type : TypeId} {defaults : List UInt8} {o : Turn Status (Cell × List LiveTree)} {s : Status}
    (h : (o.conclude type defaults).answer = .ok s) : (o.conclude type defaults).part.cell.state = some s := by
  unfold Turn.conclude at h ⊢
  split at h
  · cases h
    rfl
  · cases h

theorem blank_of_conclude {type : TypeId} {defaults : List UInt8} {o : Turn Status (Cell × List LiveTree)} {e : Error}
    (h : (o.conclude type defaults).answer = .error e) : (o.conclude type defaults).part.Blank := by
  unfold Turn.conclude at h ⊢
  split at h
  · cases h
  · exact blank_clear _

/-- The result of a tick is recorded. -/
theorem state_of_tick {t : LiveTree} {cx : Context} {s : Status}
    (h : (t.tick rs limit depth cx bb).answer = .ok s) : (t.tick rs limit depth cx bb).part.cell.state = some s := by
  obtain ⟨type, defaults, c, ts⟩ := t
  rw [tick] at h ⊢
  cases hkind : NodeKind.ofType? type with
  | none =>
      simp only [hkind] at h
      cases h
  | some kind =>
      simp only [hkind] at h ⊢
      by_cases hdeep : limit ≤ depth
      · rw [if_pos hdeep] at h
        cases h
      · rw [if_neg hdeep] at h ⊢
        exact state_of_conclude h

/-- A tick that fails for another reason than its node's type or depth leaves no results. -/
theorem blank_of_tick {t : LiveTree} {cx : Context} {kind : NodeKind} (hkind : NodeKind.ofType? t.type = some kind)
    (hroom : depth < limit) {e : Error} (h : (t.tick rs limit depth cx bb).answer = .error e) :
    (t.tick rs limit depth cx bb).part.Blank := by
  obtain ⟨type, defaults, c, ts⟩ := t
  change NodeKind.ofType? type = some kind at hkind
  rw [tick] at h ⊢
  simp only [hkind, if_neg (Nat.not_le.mpr hroom)] at h ⊢
  exact blank_of_conclude h

end LiveTree

theorem Context.getElem?_plug (cx : Context) (c : Cell) (cs : List Cell) :
    (cx.plug (c :: cs))[cx.index]? = some c := by
  rw [plug, index, List.getElem?_append_right (Nat.le_refl _), Nat.sub_self]
  rfl

/-- A timer does not change its handles. -/
theorem Cell.elapse_handles {rs : Registries} {c : Cell} {cells : List Cell} {i : Nat} {bb : Blackboard}
    {x : Status × Cell} (h : c.elapse i rs cells bb = .ok x) :
    delayHandles x.2.bytes = delayHandles c.bytes := by
  obtain ⟨head, hhead, h⟩ := Checked.bind_eq_ok.mp h
  obtain ⟨duration, -, h⟩ := Checked.bind_eq_ok.mp h
  obtain ⟨delta, -, h⟩ := Checked.bind_eq_ok.mp h
  obtain ⟨y, hy, h⟩ := Checked.bind_eq_ok.mp h
  cases h
  rw [Cell.write_bytes hy]
  exact delayHandles_elapse (Cell.read_window hhead) _

end BehaviorTree
