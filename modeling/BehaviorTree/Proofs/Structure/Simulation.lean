import BehaviorTree.Proofs.Structure.Nodes

/-!
# The machine follows the tree

A tick of node `i` does what the interpreter does to the tree drawn at `i`, by induction over the tree. The
loops over children go from one index to the next as the interpreter goes down the list.
-/

namespace BehaviorTree

open Library LiveTree

variable {b : Blob} {m : Machine} {w : World b} {cx : Context} {c : Cell} {depth : Nat} {β : Type}

/-- Below `depth` others, the machine ticks `t` as the interpreter does, wherever `t` is drawn. -/
def Simulated (b : Blob) (m : Machine) (depth : Nat) (t : LiveTree) : Prop :=
  ∀ (i : Nat) (cx : Context) (w : World b), cx.index = i → b.Draws i t.shape →
    w.inst.cells = cx.plug t.cells → (m.tickWithin (m.config.maxTickDepth - depth) i).Yields w
      (Follows w cx (t.tick m.registries m.config.maxTickDepth depth cx w.board) cells)

/-! ## Loops -/

theorem abortOne_follows {t : LiveTree} {ts : List LiveTree} {i : Nat} (hi : cx.index = i)
    (hdraw : b.Draws i t.shape) (hc : w.inst.cells = cx.plug (t.cells ++ cellsAll ts)) :
    (abortOne i).Yields w fun r w' => r = .ok () ∧
      w'.inst.cells = cx.plug (t.abort.cells ++ cellsAll ts) ∧ w'.board = w.board ∧
      w'.inst.depth = w.inst.depth := by
  subst hi
  obtain ⟨cs, hcs⟩ := t.cells_eq_cons
  have hi := hdraw.lt
  have hroot : w.inst.cells = cx.plug (t.cell :: (cs ++ cellsAll ts)) := by
    rw [hc, hcs]
    rfl
  simp only [abortOne, abort, Run.yields_bind, Run.yields_inst, Run.yields_lift, Instance.state_eq _ hi,
    cell_index hroot]
  split
  · rw [Machine.abort, if_neg (Nat.not_le.mpr hi)]
    refine (Run.clearSubtree_yields hi).mono ?_
    rintro r w' ⟨rfl, hclear, hboard⟩
    refine ⟨rfl, ?_, hboard, hclear.depth⟩
    rw [hdraw.stop, ← length_cells] at hclear
    rw [Context.plug, List.append_assoc] at hc
    rw [cells_clear, Context.plug, List.append_assoc]
    exact hclear.cells_eq hc
  · exact ⟨rfl, hc, rfl, rfl⟩

theorem abortRunning_follows : ∀ (ts : List LiveTree) {i : Nat} {cx : Context} {w : World b}, cx.index = i →
    b.DrawsAll i (shapeAll ts) → w.inst.cells = cx.plug (cellsAll ts) →
    (abortRunning (Blueprint.roots i (shapeAll ts))).Yields w
      (Follows w cx (⟨.ok (), ts.map abort, w.board⟩ : Turn Unit (List LiveTree)) cellsAll)
  | [], _, _, _, _, _, hc => ⟨rfl, hc, rfl, rfl⟩
  | t :: ts, i, cx, w, hi, hdraw, hc => by
      rw [shapeAll, Blueprint.roots, abortRunning_cons, Run.yields_bind]
      refine (abortOne_follows hi hdraw.1 hc).mono ?_
      rintro r w₁ ⟨rfl, hcells, hboard, hdepth⟩
      have hnext : (cx.focus t.abort.cells []).index = i + t.shape.size := by
        rw [Context.index_focus, length_cells, shape_abort, hi]
      rw [← Context.plug_rest] at hcells
      refine (abortRunning_follows ts hnext hdraw.2 hcells).mono fun r w₂ h => ?_
      rw [← hboard]
      exact h.unfocus hdepth rfl

theorem tickWhile_follows (keep : Status) : ∀ (ts : List LiveTree), (∀ t ∈ ts, Simulated b m depth t) →
    ∀ {i : Nat} {cx : Context} {w : World b}, cx.index = i → b.DrawsAll i (shapeAll ts) →
    w.inst.cells = cx.plug (cellsAll ts) →
    (Library.tickWhile keep (m.tickWithin (m.config.maxTickDepth - depth))
      (Blueprint.roots i (shapeAll ts))).Yields w
      (Follows w cx (LiveTree.tickWhile m.registries m.config.maxTickDepth depth keep cx w.board ts) cellsAll)
  | [], _, _, _, _, _, _, hc => ⟨rfl, hc, rfl, rfl⟩
  | t :: ts, hsim, i, cx, w, hi, hdraw, hc => by
      rw [List.forall_mem_cons] at hsim
      rw [shapeAll, Blueprint.roots, Library.tickWhile, Run.yields_bind, LiveTree.tickWhile]
      have ht := hsim.1 i (cx.focus [] (cellsAll ts)) w (by rw [Context.index_focus, hi]; rfl) hdraw.1
        (by rw [Context.plug_head, hc, cellsAll])
      have hshape := shape_tick m.registries m.config.maxTickDepth depth
        (cx.focus [] (cellsAll ts)) w.board t
      generalize t.tick m.registries m.config.maxTickDepth depth (cx.focus [] (cellsAll ts)) w.board = o
        at ht hshape
      refine ht.mono ?_
      rintro r w₁ ⟨rfl, hcells, hboard, hdepth⟩
      rw [Context.plug_head, ← Context.plug_rest] at hcells
      have hnext : (cx.focus o.part.cells []).index = i + t.shape.size := by
        rw [Context.index_focus, length_cells, hshape, hi]
      simp only
      cases o.answer with
      | error e => exact ⟨rfl, hcells.trans (Context.plug_rest ..), hboard, hdepth⟩
      | ok s =>
          simp only [Checked.ofExcept_ok]
          by_cases hs : s = keep
          · rw [if_pos hs, if_pos hs, ← hboard]
            refine (tickWhile_follows keep ts hsim.2 hnext hdraw.2 hcells).mono fun r w₂ h => ?_
            exact h.unfocus hdepth rfl
          · rw [if_neg hs, if_neg hs, Run.yields_bind]
            refine (abortRunning_follows ts hnext hdraw.2 hcells).mono ?_
            rintro r w₂ ⟨rfl, hcells₂, hboard₂, hdepth₂⟩
            exact ⟨rfl, hcells₂.trans (Context.plug_rest ..), hboard₂.trans hboard, hdepth₂.trans hdepth⟩

/-- The cells of a parallel in the middle of its pass, some children having had their turn. -/
def passCells (done : List Cell) (x : Cell × List LiveTree) : List Cell := x.1 :: (done ++ cellsAll x.2)

/-- The result of one slot goes before those of the later ones. -/
theorem slot_follows {x : Run b (List Status)} {o : Turn (List Status) (Cell × List LiveTree)}
    {done : List Cell} {t : LiveTree} (s : Status)
    (hx : x.Yields w (Follows w cx o (passCells (done ++ t.cells)))) :
    (x >>= fun rs => pure (s :: rs)).Yields w (Follows w cx
      (⟨o.answer.map (s :: ·), (o.part.1, t :: o.part.2), o.board⟩ : Turn (List Status) _)
      (passCells done)) := by
  rw [Run.yields_bind]
  refine hx.mono ?_
  rintro r w' ⟨rfl, hcells, hboard, hdepth⟩
  rw [passCells, List.append_assoc] at hcells
  cases o.answer with
  | error e => exact ⟨rfl, hcells, hboard, hdepth⟩
  | ok rs => exact ⟨rfl, hcells, hboard, hdepth⟩

theorem tickSlots_follows : ∀ (ts : List LiveTree), (∀ t ∈ ts, Simulated b m depth t) →
    ∀ {i k : Nat} {cx : Context} {c : Cell} {done : List Cell} {w : World b},
    cx.index + 1 + done.length = i → b.DrawsAll i (shapeAll ts) →
    w.inst.cells = cx.plug (passCells done (c, ts)) →
    (Library.tickSlots (m.tickWithin (m.config.maxTickDepth - depth)) cx.index
      ((Blueprint.roots i (shapeAll ts)).zipIdx k)).Yields w
      (Follows w cx (LiveTree.tickSlots m.registries m.config.maxTickDepth depth cx c done k w.board ts)
        (passCells done))
  | [], _, _, _, _, _, _, _, _, _, hc => ⟨rfl, hc, rfl, rfl⟩
  | t :: ts, hsim, i, k, cx, c, done, w, hi, hdraw, hc => by
      rw [List.forall_mem_cons] at hsim
      rw [shapeAll, Blueprint.roots, List.zipIdx_cons, tickSlots_cons, tickSlot, LiveTree.tickSlots]
      have hp := index_lt hc
      simp only [bind_assoc, Run.yields_bind, Run.readStatus_yields hp, cell_index hc]
      cases hst : c.status cx.index k with
      | error e => exact ⟨rfl, hc, rfl, rfl⟩
      | ok s =>
          simp only [Checked.ofExcept_ok]
          cases hrun : s.isRunning with
          | false =>
              have hnext : cx.index + 1 + (done ++ t.cells).length = i + t.shape.size := by
                rw [List.length_append, length_cells, ← hi]
                omega
              have hc' : w.inst.cells = cx.plug (passCells (done ++ t.cells) (c, ts)) := by
                rw [hc, passCells, passCells, cellsAll, List.append_assoc]
              have h := slot_follows s (tickSlots_follows ts hsim.2 (k := k + 1) hnext hdraw.2 hc')
              rw [Run.yields_bind] at h
              exact h
          | true =>
              have ht := hsim.1 i (cx.focus (c :: done) (cellsAll ts)) w
                (by rw [Context.index_focus, List.length_cons, ← hi]; omega) hdraw.1
                (by rw [Context.plug_focus, hc]; rfl)
              have hshape := shape_tick m.registries m.config.maxTickDepth depth
                (cx.focus (c :: done) (cellsAll ts)) w.board t
              generalize t.tick m.registries m.config.maxTickDepth depth (cx.focus (c :: done) (cellsAll ts))
                w.board = o at ht hshape
              simp only [↓reduceIte, Run.yields_bind]
              refine ht.mono ?_
              rintro r w₁ ⟨rfl, hcells, hboard, hdepth⟩
              rw [Context.plug_focus] at hcells
              cases o.answer with
              | error e => exact ⟨rfl, hcells, hboard, hdepth⟩
              | ok s' =>
                  have hk : k < c.bytes.length :=
                    (List.getElem?_eq_some_iff.mp (Cell.status_eq_ok.mp hst)).1
                  refine (writeStatus_follows hk s' hcells).mono ?_
                  rintro r w₂ ⟨rfl, hcells₂, hboard₂, hdepth₂⟩
                  have hnext : cx.index + 1 + (done ++ o.part.cells).length = i + t.shape.size := by
                    rw [List.length_append, length_cells, hshape, ← hi]
                    omega
                  have hc₂ : w₂.inst.cells = cx.plug (passCells (done ++ o.part.cells)
                      ({ c with bytes := c.bytes.set k s'.bits }, ts)) := by
                    rw [passCells, List.append_assoc]
                    exact hcells₂
                  have h := (slot_follows s' (tickSlots_follows ts hsim.2 (k := k + 1) hnext hdraw.2 hc₂)).mono
                    fun _ _ hf => hf.after (hdepth₂.trans hdepth)
                  rw [Run.yields_bind, hboard₂, hboard] at h
                  exact h

/-! ## Tick functions -/

section Kinds

variable {children : List LiveTree}

theorem composite_follows (keep : Status) (hsim : ∀ t ∈ children, Simulated b m depth t)
    (hdraw : b.DrawsAll (cx.index + 1) (shapeAll children))
    (hkids : b.childList cx.index = Blueprint.roots (cx.index + 1) (shapeAll children))
    (hc : w.inst.cells = cx.plug (nodeCells (c, children))) :
    (Run.children cx.index >>=
      Library.tickWhile keep (m.tickWithin (m.config.maxTickDepth - depth))).Yields w
      (Follows w cx ((LiveTree.tickWhile m.registries m.config.maxTickDepth depth keep (cx.focus [c] []) w.board
        children).under c fun s => .ok (s, c)) nodeCells) := by
  rw [Run.yields_bind, Run.children_yields (index_lt hc), hkids]
  have hcells : w.inst.cells = (cx.focus [c] []).plug (cellsAll children) := by
    rw [Context.plug_rest, hc]
    rfl
  have hloop := tickWhile_follows keep children hsim (Context.index_focus cx [c] []) hdraw hcells
  have h := under_follows (g := pure) (f := fun s => .ok (s, c)) hloop fun a w₁ h => pure_follows a _ h
  rw [bind_pure] at h
  exact h

theorem parallel_follows (hsim : ∀ t ∈ children, Simulated b m depth t)
    (hdraw : b.DrawsAll (cx.index + 1) (shapeAll children))
    (hkids : b.childList cx.index = Blueprint.roots (cx.index + 1) (shapeAll children))
    (hc : w.inst.cells = cx.plug (nodeCells (c, children))) :
    (Library.parallel.tick m.registries ⟨m.tickWithin (m.config.maxTickDepth - depth), m.reset⟩ cx.index).Yields w
      (Follows w cx (match c.statuses cx.index (List.range children.length) with
        | .error e => ⟨.error e, (c, children), w.board⟩
        | .ok ss =>
          if .running ∈ ss then
            let o := LiveTree.tickSlots m.registries m.config.maxTickDepth depth cx c [] 0 w.board children
            ⟨o.answer.map combine, o.part, o.board⟩
          else ⟨.error (.noRunningChild cx.index), (c, children), w.board⟩) nodeCells) := by
  have hi := index_lt hc
  have hslots : ((Blueprint.roots (cx.index + 1) (shapeAll children)).zipIdx).map (·.2) =
      List.range children.length := by
    rw [List.zipIdx_map_snd, Blueprint.length_roots, length_shapeAll, List.range_eq_range']
  simp only [Library.parallel, Run.yields_bind, Run.children_yields hi, hkids, hslots, anyRunning_yields hi,
    cell_index hc]
  cases c.statuses cx.index (List.range children.length) with
  | error e => exact ⟨rfl, hc, rfl, rfl⟩
  | ok ss =>
      by_cases hss : .running ∈ ss
      · have hcells : w.inst.cells = cx.plug (passCells [] (c, children)) := hc
        have hfirst : cx.index + 1 + ([] : List Cell).length = cx.index + 1 := rfl
        have hpass := tickSlots_follows children hsim (k := 0) hfirst hdraw hcells
        simp only [hss, Functor.map, Except.map, decide_true, Checked.ofExcept_ok, ↓reduceIte, Run.yields_pure,
          Run.yields_bind]
        refine hpass.mono ?_
        rintro r w' ⟨rfl, hcells, hboard, hdepth⟩
        cases (LiveTree.tickSlots m.registries m.config.maxTickDepth depth cx c [] 0 w.board children).answer with
        | error e => exact ⟨rfl, hcells, hboard, hdepth⟩
        | ok rs => exact ⟨rfl, hcells, hboard, hdepth⟩
      · simp only [hss, Functor.map, Except.map, decide_false, Checked.ofExcept_ok, ↓reduceIte]
        exact ⟨rfl, hc, rfl, rfl⟩

/-- A node with one child first reads what it needs to use its result; the interpreter goes on by `f` as the
machine does by `g`. -/
theorem decorator_follows {x : Run b β} {p : Except Error β} {g : β → Status → Run b Status}
    {f : Status → Except Error (Status × Cell)} (hsim : ∀ t ∈ children, Simulated b m depth t)
    (hdraw : b.DrawsAll (cx.index + 1) (shapeAll children))
    (hkids : b.childList cx.index = Blueprint.roots (cx.index + 1) (shapeAll children))
    (hc : w.inst.cells = cx.plug (nodeCells (c, children)))
    (hx : ∀ Q, x.Yields w Q ↔ Q (Checked.ofExcept p) w)
    (hg : ∀ a s ts (w₁ : World b), p = .ok a → w₁.inst.cells = cx.plug (nodeCells (c, ts)) →
      (g a s).Yields w₁ (Follows w₁ cx (.under ⟨.ok s, ts, w₁.board⟩ c f) nodeCells)) :
    (onlyChild cx.index >>= fun child => x >>= fun a =>
      m.tickWithin (m.config.maxTickDepth - depth) child >>= g a).Yields w
      (Follows w cx ((LiveTree.tickFirst m.registries m.config.maxTickDepth depth cx.index
        (p.map fun _ => ()) (cx.focus [c] []) w.board children).under c f) nodeCells) := by
  rw [Run.yields_bind, onlyChild_yields (index_lt hc), hkids]
  cases children with
  | nil => exact ⟨rfl, hc, rfl, rfl⟩
  | cons t ts =>
      rw [shapeAll, Blueprint.roots]
      simp only [Run.yields_bind (x := x), hx]
      cases p with
      | error e => exact ⟨rfl, hc, rfl, rfl⟩
      | ok a =>
          rw [List.forall_mem_cons] at hsim
          have ht := hsim.1 (cx.index + 1) ((cx.focus [c] []).focus [] (cellsAll ts)) w
            (by rw [Context.index_focus, Context.index_focus]; rfl) hdraw.1
            (by rw [Context.plug_head, Context.plug_rest, hc]; rfl)
          refine under_follows ?_ fun s w₁ h => hg a s _ w₁ rfl h
          refine ht.mono ?_
          rintro r w₁ ⟨rfl, hcells, hboard, hdepth⟩
          refine ⟨rfl, hcells.trans ?_, hboard, hdepth⟩
          rw [Context.plug_head, Except.map, tickFirst, cellsAll]

theorem force_follows (hsim : ∀ t ∈ children, Simulated b m depth t)
    (hdraw : b.DrawsAll (cx.index + 1) (shapeAll children))
    (hkids : b.childList cx.index = Blueprint.roots (cx.index + 1) (shapeAll children))
    (hc : w.inst.cells = cx.plug (nodeCells (c, children))) :
    (Library.force.tick m.registries ⟨m.tickWithin (m.config.maxTickDepth - depth), m.reset⟩ cx.index).Yields w
      (Follows w cx ((LiveTree.tickFirst m.registries m.config.maxTickDepth depth cx.index
        ((c.status cx.index 0).map fun _ => ()) (cx.focus [c] []) w.board children).under c
        (c.override cx.index)) nodeCells) := by
  refine decorator_follows (x := Run.readStatus cx.index 0)
    (g := fun forced s => pure (if s.isRunning then s else forced)) hsim hdraw hkids hc (fun Q => ?_)
    fun forced s ts w₁ hforced h₁ => ?_
  · rw [Run.readStatus_yields (index_lt hc), cell_index hc]
  · rw [Turn.under]
    simp only [Cell.override, hforced]
    exact pure_follows _ ts h₁

theorem delay_follows (rs : Registries) (cb : Callbacks b)
    (hc : w.inst.cells = cx.plug (nodeCells (c, children))) :
    (Library.delay.tick rs cb cx.index).Yields w (Follows w cx
      (.own c children w.board (c.elapse cx.index rs (cx.plug (c :: cellsAll children)) w.board)) nodeCells) := by
  have hi := index_lt hc
  rw [show cx.plug (c :: cellsAll children) = w.inst.cells from hc.symm]
  simp only [Library.delay, readSingle, Run.yields_bind, Run.readHead_yields hi, cell_index hc, Run.yields_inst,
    Run.yields_board, Run.yields_lift, Variable.read_eq_lookup, Cell.elapse]
  cases c.read PlainData.delayData.type cx.index 0 with
  | error e => exact ⟨rfl, hc, rfl, rfl⟩
  | ok bs =>
      have hdecode : Checked.ofExcept (PlainData.delayData.decode <$> (.ok bs : Except Error _)) =
          .ok (PlainData.delayData.decode bs) := rfl
      simp only [hdecode, Run.yields_pure]
      cases h₁ : (PlainData.delayData.decode bs).duration.lookup rs PlainData.f32.type cx.index
          w.inst.cells w.board with
      | error e =>
          simp only [bind, Except.bind, h₁]
          exact ⟨rfl, hc, rfl, rfl⟩
      | ok duration =>
          simp only [Checked.ofExcept_ok]
          cases h₂ : (PlainData.delayData.decode bs).delta.lookup rs PlainData.f32.type cx.index
              w.inst.cells w.board with
          | error e =>
              simp only [bind, Except.bind, h₁, h₂]
              exact ⟨rfl, hc, rfl, rfl⟩
          | ok delta =>
              have h := writeHead_follows .delayData ⟨2, rfl⟩ { PlainData.delayData.decode bs with
                  elapsed := (PlainData.delayData.decode bs).elapsed + PlainData.f32.decode delta }
                (if ((PlainData.delayData.decode bs).elapsed + PlainData.f32.decode delta).atLeast
                  (PlainData.f32.decode duration) then .success else .running) children hc
              rw [Run.yields_bind] at h
              simp only [bind, Except.bind, h₁, h₂]
              exact h

end Kinds

/-! ## The tree -/

theorem tickWithin_unknown {i : Nat} {e : Fault} (hbh : m.behaviorAt b i = .error e) (room : Nat)
    {Q : Except Fault Status → World b → Prop} :
    (m.tickWithin room i).Yields w Q ↔ Q (.error e) w := by
  cases room with
  | zero =>
      rw [Machine.tickWithin, Machine.prepare, bind_assoc, Run.yields_bind, Run.yields_lift, hbh]
  | succ room =>
      rw [Machine.tickWithin, Machine.prepare, bind_assoc, Run.yields_bind, Run.yields_lift, hbh]

theorem simulated (htrace : m.config.trace = false) (hm : m.OnlyLibrary b) (t : LiveTree) :
    ∀ depth, Simulated b m depth t := by
  induction t with
  | node type defaults cell children ih =>
      intro depth i cx w hi hdraw hc
      subst hi
      have hdraw' := hdraw
      rw [shape] at hdraw'
      obtain ⟨hlt, htype, hdata, -, hall⟩ := hdraw'
      have hkids := hdraw.childList
      have hbh := behaviorAt_eq hm hlt htype
      rw [LiveTree.tick]
      cases hkind : NodeKind.ofType? type with
      | none =>
          rw [hkind] at hbh
          rw [tickWithin_unknown hbh]
          exact ⟨rfl, hc, rfl, rfl⟩
      | some kind =>
          rw [hkind] at hbh
          have hprep := prepare_follows htrace hdata hbh hc
          by_cases hdeep : m.config.maxTickDepth ≤ depth
          · rw [Nat.sub_eq_zero_of_le hdeep]
            simp only [hdeep, ↓reduceIte]
            rw [Machine.tickWithin, Run.yields_bind]
            refine hprep.mono ?_
            rintro r w₁ ⟨rfl, hcells, hboard, hdepth⟩
            exact ⟨rfl, hcells, hboard, hdepth⟩
          · have hroom : m.config.maxTickDepth - depth = m.config.maxTickDepth - (depth + 1) + 1 := by omega
            simp only [hdeep, ↓reduceIte]
            rw [hroom, tickWithin_eq_settle htrace]
            refine settle_follows hdraw hc hprep fun w₁ hc₁ hboard₁ => ?_
            rw [← hboard₁]
            have hsim : ∀ t ∈ children, Simulated b m (depth + 1) t := fun t ht => ih t ht (depth + 1)
            cases kind with
            | sequence => exact composite_follows .success hsim hall hkids hc₁
            | selector => exact composite_follows .failure hsim hall hkids hc₁
            | parallel => exact parallel_follows hsim hall hkids hc₁
            | repetition =>
                refine decorator_follows (x := pure ()) (p := .ok ())
                  (g := fun _ => countResult cx.index) hsim hall hkids hc₁ (fun Q => Iff.rfl)
                  fun _ s ts w₂ _ h => countResult_follows s ts h
            | inverter =>
                refine decorator_follows (x := pure ()) (p := .ok ())
                  (g := fun _ s => pure s.invert) hsim hall hkids hc₁ (fun Q => Iff.rfl)
                  fun _ s ts w₂ _ h => pure_follows _ ts h
            | force => exact force_follows hsim hall hkids hc₁
            | fixed =>
                refine (Run.readStatus_yields (index_lt hc₁)).mpr ?_
                rw [cell_index hc₁]
                exact ⟨rfl, hc₁, rfl, rfl⟩
            | delay => exact delay_follows _ _ hc₁

end BehaviorTree
