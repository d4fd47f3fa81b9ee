import BehaviorTree.Proofs.Machine.Tick
import BehaviorTree.Proofs.Run.Access
import BehaviorTree.Proofs.Structure.Interpreter

/-!
# One node on the machine and in the interpreter

Activation, the end of a tick and the work of the node types, each followed by its counterpart in the
interpreter. What the machine does at an index, the interpreter does in a context.
-/

namespace BehaviorTree

open Library

/-- The types in a tree have the behaviors of the library or none. -/
def Machine.OnlyLibrary (m : Machine) (b : Blob) : Prop :=
  ∀ i type, b.typeOf i = .ok type → m.behavior? type = (NodeKind.ofType? type).map NodeKind.behavior

theorem Machine.OnlyLibrary.of_library {b : Blob} {m : Machine}
    (hlib : ∀ x ∈ Library.behaviors, m.behavior? x.1 = some x.2)
    (hhost : ∀ i type, b.typeOf i = .ok type → type ∉ Library.behaviors.map (·.1) → m.behavior? type = none) :
    m.OnlyLibrary b := by
  intro i type htype
  cases hkind : NodeKind.ofType? type with
  | some kind =>
      obtain ⟨hid, hmem⟩ := NodeKind.ofType?_eq_some hkind
      rw [← hid]
      exact hlib (kind.typeId, kind.behavior) hmem
  | none =>
      refine hhost i type htype fun hmem => ?_
      rw [NodeKind.behaviors_eq, List.map_map] at hmem
      obtain ⟨kind, hk, rfl⟩ := List.mem_map.mp hmem
      rw [Function.comp_apply, NodeKind.ofType?_typeId] at hkind
      cases hkind

variable {b : Blob} {m : Machine} {w : World b} {cx : Context} {α β τ : Type}

/-- A computation that started in `w` ended as the interpreter says, `cells` being those of its part. -/
structure Follows (w : World b) (cx : Context) (o : Turn α τ) (cells : τ → List Cell) (r : Except Fault α)
    (w' : World b) : Prop where
  answer : r = Checked.ofExcept o.answer
  cells : w'.inst.cells = cx.plug (cells o.part)
  board : w'.board = o.board
  depth : w'.inst.depth = w.inst.depth

/-- The start of a computation matters for the depth only. -/
theorem Follows.after {w w₁ w' : World b} {o : Turn α τ} {cells : τ → List Cell} {r : Except Fault α}
    (h : Follows w₁ cx o cells r w') (hdepth : w₁.inst.depth = w.inst.depth) : Follows w cx o cells r w' :=
  ⟨h.answer, h.cells, h.board, h.depth.trans hdepth⟩

/-- What follows among the cells after `l` follows among all of them. -/
theorem Follows.unfocus {w w₁ w' : World b} {l : List Cell} {o : Turn α τ} {cells : τ → List Cell} {part : β}
    {cells' : β → List Cell} {r : Except Fault α} (h : Follows w₁ (cx.focus l []) o cells r w')
    (hdepth : w₁.inst.depth = w.inst.depth) (hpart : cells' part = l ++ cells o.part) :
    Follows w cx ⟨o.answer, part, o.board⟩ cells' r w' := by
  refine ⟨h.answer, ?_, h.board, h.depth.trans hdepth⟩
  rw [h.cells, Context.plug_rest, hpart]

def nodeCells (x : Cell × List LiveTree) : List Cell := x.1 :: LiveTree.cellsAll x.2

section Cells

variable {c c' : Cell} {cs : List Cell}

theorem index_lt (hc : w.inst.cells = cx.plug (c :: cs)) : cx.index < b.size := Instance.lt_of_cells hc

theorem cell_index (hc : w.inst.cells = cx.plug (c :: cs)) : w.inst.cell cx.index = c :=
  Instance.cell_of_cells hc

/-- The number of cells of a part is fixed by its context. -/
theorem length_part {w' : World b} {cs' : List Cell} (h : w.inst.cells = cx.plug cs)
    (h' : w'.inst.cells = cx.plug cs') : cs'.length = cs.length := by
  have hl := congrArg List.length h
  have hl' := congrArg List.length h'
  simp only [Instance.length_cells, Context.plug, List.length_append] at hl hl'
  omega

end Cells

/-! ## Activation -/

section Activation

variable {kind : NodeKind} {c : Cell} {cs : List Cell}

theorem reset_follows (kind : NodeKind) (hc : w.inst.cells = cx.plug (c :: cs)) :
    (kind.behavior.reset cx.index).Yields w
      (Follows w cx (⟨.ok (), kind.reset c :: cs, w.board⟩ : Turn Unit (List Cell)) id) := by
  cases kind with
  | parallel =>
      have hi := index_lt hc
      obtain ⟨s', hs', hset⟩ := w.inst.fill_sets hi Status.running.bits
      rw [← w.inst.length_bytes_cell hi, cell_index hc] at hset
      change (Run.update _).Yields w _
      rw [Run.yields_update, hs']
      exact ⟨rfl, hset.cells_eq hc, rfl, hset.depth⟩
  | _ => exact ⟨rfl, hc, rfl, rfl⟩

theorem behaviorAt_eq (hm : m.OnlyLibrary b) {i : Nat} (hi : i < b.size) {type : TypeId}
    (htype : b.typeOf i = .ok type) : m.behaviorAt b i = match NodeKind.ofType? type with
      | some kind => .ok kind.behavior
      | none => Checked.fail (.unknownNodeType type i) := by
  rw [Machine.behaviorAt, if_neg (Nat.not_le.mpr hi), htype, Checked.ok_bind, hm i type htype]
  cases NodeKind.ofType? type with
  | none => rfl
  | some kind => rfl

theorem prepare_follows (htrace : m.config.trace = false) {defaults : List UInt8}
    (hdata : b.defaults cx.index = defaults)
    (hbh : m.behaviorAt b cx.index = .ok kind.behavior) (hc : w.inst.cells = cx.plug (c :: cs)) :
    (m.prepare cx.index).Yields w (Follows w cx
      (⟨.ok kind.behavior, kind.activate defaults c :: cs, w.board⟩ : Turn Behavior (List Cell)) id) := by
  have hi := index_lt hc
  unfold Machine.prepare NodeKind.activate
  simp only [Run.yields_bind, Run.yields_lift, Run.yields_inst, hbh, Instance.state_eq _ hi, cell_index hc]
  by_cases hrun : c.state = some .running
  · simp only [hrun, ne_eq, not_true_eq_false, ↓reduceIte, Run.yields_pure]
    exact ⟨rfl, hc, rfl, rfl⟩
  · obtain ⟨s₁, hs₁, hset⟩ := w.inst.restore_sets hi
    rw [hdata, cell_index hc] at hset
    simp only [hrun, ne_eq, not_false_eq_true, ↓reduceIte, Machine.activate, Machine.trace_off htrace,
      Run.yields_bind, Run.yields_update, hs₁, Run.yields_pure]
    refine (reset_follows (w := ⟨s₁, w.board⟩) kind (hset.cells_eq hc)).mono ?_
    rintro r w' ⟨rfl, hcells, hboard, hdepth⟩
    exact ⟨rfl, hcells, hboard, hdepth.trans hset.depth⟩

end Activation

/-! ## The end of a tick -/

theorem tickWithin_eq_settle (htrace : m.config.trace = false) (room i : Nat) :
    m.tickWithin (b := b) (room + 1) i = m.settle room i := by
  simp only [m.tickWithin_succ, Machine.trace_off htrace, pure_bind, bind_pure]

/-- The tick function decides how the tick of a node ends. -/
theorem settle_follows {kind : NodeKind} {type : TypeId} {defaults : List UInt8} {c : Cell}
    {children : List LiveTree} {o : Turn Status (Cell × List LiveTree)} {room : Nat}
    (hdraw : b.Draws cx.index (LiveTree.node type defaults c children).shape)
    (hc : w.inst.cells = cx.plug (LiveTree.node type defaults c children).cells)
    (hprep : (m.prepare cx.index).Yields w (Follows w cx
      (⟨.ok kind.behavior, kind.activate defaults c :: LiveTree.cellsAll children, w.board⟩ :
        Turn Behavior (List Cell)) id))
    (htick : ∀ w₁ : World b, w₁.inst.cells = cx.plug (nodeCells (kind.activate defaults c, children)) →
      w₁.board = w.board →
      (kind.behavior.tick m.registries ⟨m.tickWithin room, m.reset⟩ cx.index).Yields w₁ (Follows w₁ cx o nodeCells)) :
    (m.settle room cx.index).Yields w
      (Follows w cx (o.conclude type defaults) LiveTree.cells) := by
  unfold Machine.settle
  rw [Run.yields_bind]
  refine hprep.mono ?_
  rintro r w₁ ⟨rfl, hcells₁, hboard₁, hdepth₁⟩
  simp only [Checked.ofExcept_ok, Run.yields_bind, Run.yields_inst, Run.yields_setInst, Run.yields_attempt]
  refine (htick ⟨w₁.inst.enter, w₁.board⟩ hcells₁ hboard₁).mono ?_
  rintro r w₂ ⟨rfl, hcells₂, hboard₂, hdepth₂⟩
  have hdepth : w₂.inst.leave.depth = w.inst.depth := by
    rw [Instance.leave, hdepth₂, Instance.enter, hdepth₁]
    rfl
  have hleave : w₂.inst.leave.cells = cx.plug (nodeCells o.part) := hcells₂
  have hi := index_lt hcells₂
  unfold Turn.conclude
  cases o.answer with
  | ok s =>
      obtain ⟨s₃, hs₃, hset⟩ := w₂.inst.leave.setState_sets hi s
      simp only [Checked.ofExcept_ok, Run.yields_bind, Run.yields_update, hs₃, Run.yields_pure]
      refine ⟨rfl, ?_, hboard₂, hset.depth.trans hdepth⟩
      rw [show w₂.inst.leave.cell cx.index = o.part.1 from cell_index hcells₂] at hset
      exact hset.cells_eq hleave
  | error e =>
      have hstop : b.stop cx.index = cx.index + (nodeCells o.part).length := by
        rw [length_part hc hcells₂, LiveTree.length_cells, hdraw.stop]
      obtain ⟨s₃, hs₃, hclear⟩ := w₂.inst.leave.clearStates_clears (Nat.le_of_lt (Blob.lt_stop hi))
        (Blob.stop_le hi)
      simp only [Checked.ofExcept_error, Run.clearSubtree, Run.yields_bind, Run.yields_lift, Blob.endOf_eq hi,
        Run.yields_update, hs₃, Run.yields_throw]
      refine ⟨rfl, ?_, hboard₂, hclear.depth.trans hdepth⟩
      rw [hstop] at hclear
      rw [LiveTree.cells_clear]
      exact hclear.cells_eq hleave

/-! ## What a node makes of its child's result -/

section Under

variable {c : Cell} {cs : List Cell} {o : Turn α (List LiveTree)} {f : α → Except Error (Status × Cell)}

theorem under_follows {x : Run b α} {g : α → Run b Status}
    (hx : x.Yields w (Follows w (cx.focus [c] []) o LiveTree.cellsAll))
    (hg : ∀ a w₁, w₁.inst.cells = cx.plug (nodeCells (c, o.part)) → (g a).Yields w₁
      (Follows w₁ cx (.under ⟨.ok a, o.part, w₁.board⟩ c f) nodeCells)) :
    (x >>= g).Yields w (Follows w cx (o.under c f) nodeCells) := by
  rw [Run.yields_bind]
  refine hx.mono ?_
  rintro r w₁ ⟨rfl, hcells, hboard, hdepth⟩
  rw [Context.plug_rest] at hcells
  unfold Turn.under
  cases ho : o.answer with
  | error e => exact ⟨rfl, hcells, hboard, hdepth⟩
  | ok a =>
      refine (hg a w₁ hcells).mono ?_
      rintro r w₂ ⟨hans, hcells₂, hboard₂, hdepth₂⟩
      rw [← hboard]
      exact ⟨hans, hcells₂, hboard₂, hdepth₂.trans hdepth⟩

theorem pure_follows (s : Status) (ts : List LiveTree) (hc : w.inst.cells = cx.plug (nodeCells (c, ts))) :
    (pure s : Run b Status).Yields w
      (Follows w cx (⟨.ok s, (c, ts), w.board⟩ : Turn Status (Cell × List LiveTree)) nodeCells) :=
  ⟨rfl, hc, rfl, rfl⟩

theorem writeStatus_follows {k : Nat} (hk : k < c.bytes.length) (s : Status)
    (hc : w.inst.cells = cx.plug (c :: cs)) : (Run.writeStatus cx.index k s).Yields w (Follows w cx
      (⟨.ok (), { c with bytes := c.bytes.set k s.bits } :: cs, w.board⟩ : Turn Unit (List Cell)) id) := by
  rw [← cell_index hc] at hk
  refine (Run.writeStatus_yields (index_lt hc) hk s).mono ?_
  rintro r w' ⟨rfl, hset, hboard⟩
  rw [cell_index hc] at hset
  exact ⟨rfl, hset.cells_eq hc, hboard, hset.depth⟩

theorem writeHead_follows (p : PlainData β) (hp : p.type.align ∣ dataAlign) (a : β) (s : Status)
    (ts : List LiveTree) (hc : w.inst.cells = cx.plug (nodeCells (c, ts))) :
    (Run.writeHead p cx.index a >>= fun _ => pure s).Yields w (Follows w cx
      (.own c ts w.board ((fun c => (s, c)) <$> c.write cx.index 0 (p.encode a))) nodeCells) := by
  have hi := index_lt hc
  rw [Run.yields_bind]
  refine (Run.writeHead_yields hi p hp a).mono fun r w' hput => ?_
  rw [cell_index hc] at hput
  cases hw : c.write cx.index 0 (p.encode a) with
  | error e =>
      rw [show (c, ts).1 = c from rfl, hw] at hput
      obtain ⟨rfl, rfl⟩ := hput
      exact ⟨rfl, hc, rfl, rfl⟩
  | ok c' =>
      rw [show (c, ts).1 = c from rfl, hw] at hput
      obtain ⟨rfl, hset, hboard⟩ := hput
      exact ⟨rfl, hset.cells_eq hc, hboard, hset.depth⟩

theorem countResult_follows (s : Status) (ts : List LiveTree)
    (hc : w.inst.cells = cx.plug (nodeCells (c, ts))) :
    (countResult cx.index s).Yields w
      (Follows w cx (.under ⟨.ok s, ts, w.board⟩ c (c.count cx.index)) nodeCells) := by
  have hi := index_lt hc
  simp only [countResult, Run.yields_bind, Run.readHead_yields hi, cell_index hc, Turn.under, Cell.count]
  cases c.read PlainData.repeatData.type cx.index 0 with
  | error e => exact ⟨rfl, hc, rfl, rfl⟩
  | ok bs =>
      have h := writeHead_follows .repeatData ⟨2, rfl⟩ ((PlainData.repeatData.decode bs).step s).1
        ((PlainData.repeatData.decode bs).step s).2 ts hc
      rw [Run.yields_bind] at h
      exact h

end Under

end BehaviorTree
