import BehaviorTree.Proofs.Library.Running
import BehaviorTree.Proofs.Library.Soundness
import BehaviorTree.Proofs.Machine.Runs
import BehaviorTree.Proofs.Structure.Simulation

/-!
# A tree in use refines the interpreter

Between calls, the instance holds the cells of a live tree. Every call answers as the interpreter does and
leaves the cells that it leaves, so whole runs cannot be told apart.
-/

namespace BehaviorTree

open Library LiveTree

variable {b : Blob} {m : Machine} {w : World b} {cx : Context}

/-! ## Fresh trees -/

namespace LiveTree

mutual

theorem cells_fresh {t : Blueprint} {i : Nat} (h : b.Draws i t) :
    (fresh t).cells = (List.range' i t.size).map fun j => ⟨none, b.defaults j⟩ := by
  match t with
  | .node type data children =>
      obtain ⟨-, -, hdata, -, hall⟩ := h
      rw [fresh, cells, Blueprint.size, Nat.add_comm, List.range'_succ, List.map_cons, hdata,
        cellsAll_freshAll hall]

theorem cellsAll_freshAll {ts : List Blueprint} {i : Nat} (h : b.DrawsAll i ts) :
    cellsAll (freshAll ts) = (List.range' i (Blueprint.sizeAll ts)).map fun j => ⟨none, b.defaults j⟩ := by
  match ts with
  | [] => rfl
  | t :: ts =>
      rw [freshAll, cellsAll, Blueprint.sizeAll, cells_fresh h.1, cellsAll_freshAll h.2,
        ← List.range'_append_1, List.map_append]

end

end LiveTree

theorem Instance.cells_eq_fresh {s : Instance b} {t : Blueprint} (hdraw : b.Draws 0 t)
    (h : ∀ i < b.size, s.cell i = ⟨none, b.defaults i⟩) : s.cells = (fresh t).cells := by
  have hsize : t.size = b.size := by
    rw [← b.stop_root, hdraw.stop, Nat.zero_add]
  rw [LiveTree.cells_fresh hdraw, hsize, ← List.range_eq_range', cells]
  exact List.map_congr_left fun i hi => h i (List.mem_range.mp hi)

/-! ## Resets -/

/-- The pass of reset functions over the nodes of `t` is that over the tree, wherever `t` is drawn. -/
def Started (b : Blob) (m : Machine) (t : LiveTree) : Prop :=
  ∀ (i : Nat) (cx : Context) (w : World b), cx.index = i → b.Draws i t.shape →
    w.inst.cells = cx.plug t.cells → (forM (List.range' i t.shape.size) m.resetNode).Yields w
      (Follows w cx (⟨(t.start i).1, (t.start i).2, w.board⟩ : Turn Unit LiveTree) cells)

theorem startAll_follows : ∀ (ts : List LiveTree), (∀ t ∈ ts, Started b m t) →
    ∀ {i : Nat} {cx : Context} {w : World b}, cx.index = i → b.DrawsAll i (shapeAll ts) →
    w.inst.cells = cx.plug (cellsAll ts) →
    (forM (List.range' i (Blueprint.sizeAll (shapeAll ts))) m.resetNode).Yields w
      (Follows w cx (⟨(startAll i ts).1, (startAll i ts).2, w.board⟩ : Turn Unit (List LiveTree)) cellsAll)
  | [], _, _, _, _, _, _, hc => ⟨rfl, hc, rfl, rfl⟩
  | t :: ts, hstart, i, cx, w, hi, hdraw, hc => by
      rw [List.forall_mem_cons] at hstart
      have ht := hstart.1 i (cx.focus [] (cellsAll ts)) w (by rw [Context.index_focus, hi]; rfl) hdraw.1
        (by rw [Context.plug_head, hc, cellsAll])
      rw [shapeAll, Blueprint.sizeAll, ← List.range'_append_1, List.forM_append, Run.yields_bind, startAll]
      have hshape := shape_start i t
      generalize t.start i = x at ht hshape
      refine ht.mono ?_
      rintro r w₁ ⟨rfl, hcells, hboard, hdepth⟩
      rw [Context.plug_head, ← Context.plug_rest] at hcells
      have hnext : (cx.focus x.2.cells []).index = i + x.2.cells.length := by
        rw [Context.index_focus, hi]
      have hdraw' : b.DrawsAll (i + x.2.cells.length) (shapeAll ts) := by
        rw [length_cells, hshape]
        exact hdraw.2
      simp only
      cases x.1 with
      | error e => exact ⟨rfl, hcells.trans (Context.plug_rest ..), hboard, hdepth⟩
      | ok u =>
          have h := startAll_follows ts hstart.2 hnext hdraw' hcells
          rw [length_cells, hshape, hboard] at h
          rw [length_cells, hshape]
          exact h.mono fun r w₂ hf => hf.unfocus hdepth rfl

theorem started (hm : m.OnlyLibrary b) (t : LiveTree) : Started b m t := by
  induction t with
  | node type defaults cell children ih =>
      intro i cx w hi hdraw hc
      subst hi
      have hdraw' := hdraw
      rw [shape] at hdraw'
      obtain ⟨hlt, htype, -, -, hall⟩ := hdraw'
      have hbh := behaviorAt_eq hm hlt htype
      rw [shape, Blueprint.size, Nat.add_comm, List.range'_succ, List.forM_cons, Run.yields_bind,
        Machine.resetNode, Run.yields_bind, Run.yields_lift, hbh, start]
      cases NodeKind.ofType? type with
      | none => exact ⟨rfl, hc, rfl, rfl⟩
      | some kind =>
          refine (reset_follows kind hc).mono ?_
          rintro r w₁ ⟨rfl, hcells, hboard, hdepth⟩
          have hcells' : w₁.inst.cells = (cx.focus [kind.reset cell] []).plug (cellsAll children) := by
            rw [Context.plug_rest, hcells]
            rfl
          have h := startAll_follows children ih (Context.index_focus cx [kind.reset cell] []) hall hcells'
          rw [hboard] at h
          exact h.mono fun r w₂ hf => hf.unfocus hdepth rfl

theorem reset_root_follows (htrace : m.config.trace = false) (hm : m.OnlyLibrary b) {t : LiveTree}
    (hdraw : b.Draws 0 t.shape) (hc : w.inst.cells = t.cells) :
    (m.reset 0).Yields w
      (Follows w .top (⟨t.reset.1, t.reset.2, w.board⟩ : Turn Unit LiveTree) cells) := by
  have hbh := behaviorAt_eq hm hdraw.lt hdraw.type
  have htype : t.shape.type = t.type := by
    cases t with
    | node _ _ _ _ => rw [shape]; rfl
  rw [htype] at hbh
  unfold Machine.reset LiveTree.reset
  simp only [Run.yields_bind, Run.yields_lift, hbh, Machine.trace_off htrace]
  cases NodeKind.ofType? t.type with
  | none => exact ⟨rfl, by rw [Context.plug_top]; exact hc, rfl, rfl⟩
  | some kind =>
      obtain ⟨s₁, hs₁, hnew⟩ := Instance.resetSubtree_renews w.inst b.size_pos
      have hspan : List.range' 0 (b.stop 0 - 0) = List.range' 0 (fresh t.shape).shape.size := by
        rw [shape_fresh, hdraw.stop, Nat.zero_add, Nat.sub_zero]
      have hcells₁ : s₁.cells = (fresh t.shape).cells := Instance.cells_eq_fresh hdraw fun i hi => by
        rw [hnew.inside i (Nat.zero_le i) (by rw [b.stop_root]; exact hi)]
      simp only [Run.yields_update, hs₁, Blob.endOf_eq b.size_pos, List.forM_eq_forM, hspan]
      have h := started hm (fresh t.shape) 0 .top ⟨s₁, w.board⟩ rfl (by rw [shape_fresh]; exact hdraw)
        (by rw [Context.plug_top, hcells₁])
      refine h.mono ?_
      rintro r w' ⟨rfl, hcells, hboard, hdepth⟩
      cases (start 0 (fresh t.shape)).1 with
      | error e => exact ⟨rfl, hcells, hboard, hdepth.trans hnew.depth⟩
      | ok u => exact ⟨rfl, hcells, hboard, hdepth.trans hnew.depth⟩

/-! ## Calls -/

inductive Call where
  | tick
  | reset
  deriving DecidableEq, Repr

def Call.act : Call → Act
  | tick => .tick
  | reset => .reset

/-- What a host sees after a call: the answer, what is kept for every node, and the blackboard. -/
structure Report where
  answer : Except Fault (Option Status)
  cells : List Cell
  board : Blackboard

/-- What a host sees of a run, each call with a blackboard of its own. -/
def Tree.trail (t : Tree b) (m : Machine) : List (Call × Blackboard) → List Report
  | [] => []
  | (a, bb) :: rest =>
    let x := t.call m bb a.act
    ⟨x.1, x.2.1.inst.cells, x.2.2⟩ :: x.2.1.trail m rest

namespace LiveTree

def call (rs : Registries) (limit : Nat) (t : LiveTree) (bb : Blackboard) :
    Call → Turn (Option Status) LiveTree
  | .tick =>
    let o := t.tick rs limit 0 .top bb
    ⟨o.answer.map some, o.part, o.board⟩
  | .reset => ⟨t.reset.1.map fun _ => none, t.reset.2, bb⟩

def trail (rs : Registries) (limit : Nat) (t : LiveTree) : List (Call × Blackboard) → List Report
  | [] => []
  | (a, bb) :: rest =>
    let o := t.call rs limit bb a
    ⟨Checked.ofExcept o.answer, o.part.cells, o.board⟩ :: o.part.trail rs limit rest

end LiveTree

/-- Between calls, the tree in use holds the cells of the live tree. -/
structure Mirrors (t : Tree b) (lt : LiveTree) : Prop where
  draws : b.Draws 0 lt.shape
  cells : t.inst.cells = lt.cells
  depth : t.inst.depth = 0

theorem mirrors_new {t : Blueprint} (h : b.Draws 0 t) : Mirrors (Tree.new b) (fresh t) where
  draws := by rw [shape_fresh]; exact h
  cells := Instance.cells_eq_fresh h fun _ hi => Instance.cell_new hi
  depth := rfl

theorem tick_mirrors (htrace : m.config.trace = false) (hm : m.OnlyLibrary b) {t : Tree b} {lt : LiveTree}
    (h : Mirrors t lt) (bb : Blackboard) :
    let o := lt.tick m.registries m.config.maxTickDepth 0 .top bb
    (t.tick m bb).1 = Checked.ofExcept o.answer ∧ (t.tick m bb).2.2 = o.board ∧
      Mirrors (t.tick m bb).2.1 o.part := by
  have hsim := simulated htrace hm lt 0 0 .top ⟨t.inst.advance, bb⟩ rfl h.draws
    (by rw [Context.plug_top]; exact h.cells)
  have htick : (m.tick 0).Yields ⟨t.inst.advance, bb⟩ (Follows ⟨t.inst.advance, bb⟩ .top
      (lt.tick m.registries m.config.maxTickDepth 0 .top bb) cells) := by
    rw [Machine.tick, Run.yields_bind, Run.yields_inst]
    have hroom : t.inst.advance.depth = 0 := h.depth
    simp only [hroom]
    exact hsim
  obtain ⟨hanswer, hcells, hboard, hdepth⟩ := t.tick_yields bb htick
  refine ⟨hanswer, hboard, ?_, ?_, hdepth.trans h.depth⟩
  · rw [shape_tick]
    exact h.draws
  · rw [Context.plug_top] at hcells
    exact hcells

/-- One call, on the tree in use and on the interpreter. -/
theorem call_mirrors (htrace : m.config.trace = false) (hm : m.OnlyLibrary b) {t : Tree b} {lt : LiveTree}
    (h : Mirrors t lt) (a : Call) (bb : Blackboard) :
    (t.call m bb a.act).1 = Checked.ofExcept (lt.call m.registries m.config.maxTickDepth bb a).answer ∧
      (t.call m bb a.act).2.2 = (lt.call m.registries m.config.maxTickDepth bb a).board ∧
      Mirrors (t.call m bb a.act).2.1 (lt.call m.registries m.config.maxTickDepth bb a).part := by
  cases a with
  | tick =>
      obtain ⟨hanswer, hboard, hnext⟩ := tick_mirrors htrace hm h bb
      refine ⟨?_, hboard, hnext⟩
      change (t.tick m bb).1.map some = _
      rw [hanswer, call, Checked.ofExcept_map]
  | reset =>
      have hreset := reset_root_follows (w := ⟨t.inst, bb⟩) htrace hm h.draws h.cells
      obtain ⟨hanswer, hcells, hboard, hdepth⟩ := Tree.run_yields ({ t with last := none } : Tree b) bb hreset
      refine ⟨?_, hboard, ?_, ?_, hdepth.trans h.depth⟩
      · change (t.reset m bb).1.map (fun _ => none) = _
        rw [call, Checked.ofExcept_map]
        exact congrArg (Except.map fun _ => none) hanswer
      · change b.Draws 0 lt.reset.2.shape
        rw [shape_reset]
        exact h.draws
      · rw [Context.plug_top] at hcells
        exact hcells

theorem trail_mirrors (htrace : m.config.trace = false) (hm : m.OnlyLibrary b) :
    ∀ (calls : List (Call × Blackboard)) {t : Tree b} {lt : LiveTree}, Mirrors t lt →
    t.trail m calls = lt.trail m.registries m.config.maxTickDepth calls
  | [], _, _, _ => rfl
  | (a, bb) :: rest, t, lt, h => by
      obtain ⟨hanswer, hboard, hnext⟩ := call_mirrors htrace hm h a bb
      rw [Tree.trail, LiveTree.trail, hanswer, hboard, hnext.cells, trail_mirrors htrace hm rest hnext]

/-- On a machine with the library and without tracing, a tree is driven like the interpreter on the tree that
its blob lays out, unless it has nodes of types of the host. -/
theorem trail_eq_interpreter (b : Blob) (m : Machine) (hlib : ∀ x ∈ Library.behaviors, m.behavior? x.1 = some x.2)
    (hhost : ∀ i type, b.typeOf i = .ok type → type ∉ Library.behaviors.map (·.1) → m.behavior? type = none)
    (htrace : m.config.trace = false) :
    ∃ t, b.outline = .ok t ∧ ∀ calls, (Tree.new b).trail m calls =
      (fresh t).trail m.registries m.config.maxTickDepth calls := by
  obtain ⟨t, ht, hdraw⟩ := b.exists_outline
  exact ⟨t, ht, fun calls => trail_mirrors htrace (.of_library hlib hhost) calls (mirrors_new hdraw)⟩

theorem trail_eq_interpreter_busySequence :
    (∀ x ∈ Library.behaviors, Machine.ofLibrary.behavior? x.1 = some x.2) ∧
      Machine.ofLibrary.config.trace = false ∧
      (Tree.new .busySequence).trail .ofLibrary [(.tick, .empty), (.reset, .empty), (.tick, .empty)] =
        (fresh (.sequence [.fixed .running])).trail Machine.ofLibrary.registries
          Machine.ofLibrary.config.maxTickDepth [(.tick, .empty), (.reset, .empty), (.tick, .empty)] := by
  have hlib := Machine.HasLibrary.ofLibrary.behaviors
  have hhost : ∀ i type, Blob.busySequence.typeOf i = .ok type → type ∉ Library.behaviors.map (·.1) →
      Machine.ofLibrary.behavior? type = none := by
    intro i type htype hforeign
    rcases i with _ | _ | i
    · cases htype
      exact absurd (by decide) hforeign
    · cases htype
      exact absurd (by decide) hforeign
    · cases htype
  obtain ⟨t, ht, h⟩ := trail_eq_interpreter .busySequence .ofLibrary hlib hhost rfl
  have houtline : Blob.busySequence.outline = .ok (.sequence [.fixed .running]) := by rfl
  rw [houtline] at ht
  cases ht
  exact ⟨hlib, rfl, h _⟩

end BehaviorTree
