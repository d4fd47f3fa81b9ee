import BehaviorTree.Proofs.Structure.Alongside

/-!
# The selector is the dual of the sequence

An inverter over a sequence, and a selector over inverters over the same children. The second tree takes every
step of the first one with success and failure exchanged, and aborts the same children.
-/

namespace BehaviorTree

open Library LiveTree

/-! ## Places -/

/-- The numbering takes the trees of the list, one after the other from `p` on, to the children of inverters,
one after the other from `q` on. -/
def Stretched (ρ : Nat → Nat) : Nat → Nat → List Blueprint → Prop
  | _, _, [] => True
  | p, q, c :: cs => Rigid ρ p (q + 1) c.size ∧ Stretched ρ (p + c.size) (q + 1 + c.size) cs

/-- Where a node of the inverted sequence of `cs` stands in the selector of the inverted `cs`. The root and the
sequence make way for one inverter above each child. -/
def dualIndex (cs : List Blueprint) (i : Nat) : Nat := i - 1 + (Blueprint.roots 2 cs).countP (· ≤ i)

theorem Blueprint.le_of_mem_roots : ∀ {ts : List Blueprint} {i r : Nat}, r ∈ roots i ts → i ≤ r
  | t :: ts, i, r, h => by
      rw [roots, List.mem_cons] at h
      rcases h with rfl | h
      · exact Nat.le_refl r
      · exact Nat.le_trans (Nat.le_add_right i t.size) (le_of_mem_roots h)

theorem Blueprint.countP_roots_of_lt {ts : List Blueprint} {i p : Nat} (h : i < p) :
    (roots p ts).countP (· ≤ i) = 0 :=
  List.countP_eq_zero.mpr fun r hr => by
    have := le_of_mem_roots hr
    simp only [decide_eq_true_eq]
    omega

/-- Every tree in the list before a node moves it by one place. -/
theorem stretched_of_countP {ρ : Nat → Nat} : ∀ {cs : List Blueprint} {p q : Nat},
    (∀ i, p ≤ i → ρ i + p = i + q + (Blueprint.roots p cs).countP (· ≤ i)) → Stretched ρ p q cs
  | [], _, _, _ => trivial
  | c :: cs, p, q, h => by
      have hcount : ∀ i, p ≤ i →
          (Blueprint.roots p (c :: cs)).countP (· ≤ i) = (Blueprint.roots (p + c.size) cs).countP (· ≤ i) + 1 :=
        fun i hi => List.countP_cons_of_pos (decide_eq_true hi)
      refine ⟨fun j hj => ?_, stretched_of_countP fun i hi => ?_⟩
      · have := h (p + j) (Nat.le_add_right p j)
        rw [hcount _ (Nat.le_add_right p j), Blueprint.countP_roots_of_lt (by omega)] at this
        omega
      · have := h i (by omega)
        rw [hcount i (by omega)] at this
        omega

theorem stretched_dualIndex (cs : List Blueprint) : Stretched (dualIndex cs) 2 1 cs :=
  stretched_of_countP fun i hi => by
    unfold dualIndex
    omega

/-! ## Children and their inverters -/

/-- Both turns succeed, the second with the inverted result and parts that `R` relates, or both fail with the same
error, up to the numbers of nodes. Neither changes the blackboard. -/
structure Turn.Opposed {τ : Type} (ρ : Nat → Nat) (R : τ → τ → Prop) (bb : Blackboard) (o o' : Turn Status τ) :
    Prop where
  ends : (∃ s, o.answer = .ok s ∧ o'.answer = .ok s.invert ∧ R o.part o'.part) ∨
    ∃ e, o.answer = .error e ∧ o'.answer = .error (e.renumber ρ)
  board : o.board = bb
  board' : o'.board = bb

namespace LiveTree

variable {rs : Registries} {ρ : Nat → Nat} {limit : Nat} {t u : LiveTree} {ts us : List LiveTree} {bb : Blackboard}

/-- The second tree is an inverter over a counterpart of the first one, with the inverted result. -/
inductive Inverted (rs : Registries) (t : LiveTree) : LiveTree → Prop
  | node {t' : LiveTree} {d : Cell} : Corresponds rs Eq t t' → d.state = t.cell.state.map Status.invert →
      Inverted rs t (.node inverterId [] d [t'])

theorem inverted_of_blank (h : t.Blank) (hu : u.Blank) (hshape : u.shape = .inverter t.shape) : Inverted rs t u := by
  obtain ⟨type, defaults, d, vs⟩ := u
  rw [shape, Blueprint.inverter, Blueprint.node.injEq] at hshape
  obtain ⟨rfl, rfl, hshapes⟩ := hshape
  obtain ⟨v, rfl⟩ : ∃ v, vs = [v] := List.length_eq_one_iff.mp (by rw [← length_shapeAll, hshapes]; rfl)
  rw [blank_node, List.forall_mem_singleton] at hu
  obtain ⟨cs, hcs⟩ := t.cells_eq_cons
  refine .node (.of_blank (fun _ => rfl) h hu.2 (List.cons.inj hshapes).1) ?_
  rw [hu.1, h t.cell (hcs ▸ List.mem_cons_self)]
  rfl

theorem allInverted_of_blank (h : ∀ t ∈ ts, t.Blank) (hu : ∀ u ∈ us, u.Blank)
    (hshapes : shapeAll us = (shapeAll ts).map .inverter) : List.Forall₂ (Inverted rs) ts us :=
  forall₂_of_shapes_map hshapes fun t ht u hmem => inverted_of_blank (h t ht) (hu u hmem)

theorem Inverted.abort (h : Inverted rs t u) : Inverted rs t.abort u.abort := by
  obtain @⟨t', d, ht, hd⟩ := h
  have hrun : (LiveTree.node inverterId [] d [t']).cell.state = some .running ↔ t.cell.state = some .running := by
    rw [cell, hd]
    rcases t.cell.state with _ | _ | _ | _ <;> decide
  unfold LiveTree.abort
  rw [if_congr hrun rfl rfl]
  split
  · rw [clear, clearAll, clearAll]
    obtain ⟨cs, hcs⟩ := t.clear.cells_eq_cons
    refine .node (.clear (fun _ => rfl) (Corresponds.shape_eq t ht)) ?_
    rw [blank_clear t t.clear.cell (hcs ▸ List.mem_cons_self)]
    rfl
  · exact .node ht hd

theorem Inverted.shape_eq (h : Inverted rs t u) : u.shape = .inverter t.shape := by
  obtain ⟨ht, -⟩ := h
  rw [shape, shapeAll, shapeAll, Corresponds.shape_eq t ht]
  rfl

/-- An inverter ticks its child where the child stands alone, and inverts the result. -/
theorem Inverted.tick (h : Inverted rs t u) (hself : t.shape.SelfContained rs) {depth : Nat} (hroom : depth < limit)
    (cx cx' : Context) (bb : Blackboard) (hplace : Rigid ρ cx.index (cx'.index + 1) t.shape.size) :
    Turn.Opposed ρ (Inverted rs) bb (t.tick rs limit (depth + 1) cx bb) (u.tick rs limit depth cx' bb) := by
  obtain @⟨t', d, ht, -⟩ := h
  have hkind : NodeKind.ofType? inverterId = some .inverter := rfl
  rw [tick.eq_1 rs limit depth]
  simp only [hkind, if_neg (Nat.not_le.mpr hroom), tickFirst]
  generalize NodeKind.inverter.activate [] d = a
  obtain ⟨hans, hpart, hboard, hboard'⟩ := tick_corresponds (fun _ => rfl) t ht hself
    (.inl rfl : RoomAlike limit (depth + 1) (depth + 1) _) cx ((cx'.focus [a] []).focus [] (cellsAll [])) bb
    (by simpa only [Context.index_focus, List.length_nil, List.length_singleton] using hplace)
  have hstate : ∀ s, (t.tick rs limit (depth + 1) cx bb).answer = .ok s →
      (t.tick rs limit (depth + 1) cx bb).part.cell.state = some s := fun s => state_of_tick
  generalize t.tick rs limit (depth + 1) cx bb = o at hans hpart hboard hstate ⊢
  generalize t'.tick rs limit (depth + 1) ((cx'.focus [a] []).focus [] (cellsAll [])) bb = o' at hans hpart hboard' ⊢
  obtain ⟨answer, part, board⟩ := o
  obtain ⟨answer', part', board'⟩ := o'
  cases hboard
  cases hboard'
  cases hans with
  | ok ha =>
      cases ha
      refine ⟨.inl ⟨_, rfl, rfl, .node hpart ?_⟩, rfl, rfl⟩
      rw [hstate _ rfl]
      rfl
  | error e => exact ⟨.inr ⟨e, rfl, rfl⟩, rfl, rfl⟩

/-- A sequence and a selector of the inverted children go on and stop together, and abort the same children. -/
theorem tickWhile_opposed {depth : Nat} (hroom : depth < limit) (h : List.Forall₂ (Inverted rs) ts us) :
    (∀ t ∈ ts, t.shape.SelfContained rs) → ∀ cx cx' bb, Stretched ρ cx.index cx'.index (shapeAll ts) →
      Turn.Opposed ρ (List.Forall₂ (Inverted rs)) bb (tickWhile rs limit (depth + 1) .success cx bb ts)
        (tickWhile rs limit depth .failure cx' bb us) := by
  induction h with
  | nil =>
      intro _ cx cx' bb _
      rw [tickWhile, tickWhile]
      exact ⟨.inl ⟨.success, rfl, rfl, .nil⟩, rfl, rfl⟩
  | @cons t u ts us ht hts ih =>
      intro hself cx cx' bb hplace
      rw [List.forall_mem_cons] at hself
      rw [shapeAll, Stretched] at hplace
      have hstep := ht.tick hself.1 hroom (cx.focus [] (cellsAll ts)) (cx'.focus [] (cellsAll us)) bb
        (by simpa only [Context.index_focus, List.length_nil, Nat.add_zero] using hplace.1)
      have hshape := shape_tick rs limit (depth + 1) (cx.focus [] (cellsAll ts)) bb t
      rw [tickWhile, tickWhile]
      generalize t.tick rs limit (depth + 1) (cx.focus [] (cellsAll ts)) bb = o at hstep hshape ⊢
      generalize u.tick rs limit depth (cx'.focus [] (cellsAll us)) bb = o' at hstep ⊢
      obtain ⟨answer, part, board⟩ := o
      obtain ⟨answer', part', board'⟩ := o'
      obtain ⟨⟨s, rfl, rfl, hpart⟩ | ⟨e, rfl, rfl⟩, rfl, rfl⟩ := hstep
      · have hkeep : s.invert = .failure ↔ s = .success := by cases s <;> decide
        simp only
        rw [if_congr hkeep rfl rfl]
        split
        · have hnext : Stretched ρ (cx.focus part.cells []).index (cx'.focus part'.cells []).index (shapeAll ts) := by
            rw [Context.index_focus, Context.index_focus, length_cells, length_cells, hpart.shape_eq, hshape,
              Blueprint.inverter, Blueprint.size, Blueprint.sizeAll, Blueprint.sizeAll, Nat.add_zero, ← Nat.add_assoc]
            exact hplace.2
          obtain ⟨⟨r, hr, hr', hparts⟩ | ⟨e, he, he'⟩, hboard, hboard'⟩ := ih hself.2 _ _ _ hnext
          · exact ⟨.inl ⟨r, hr, hr', .cons hpart hparts⟩, hboard, hboard'⟩
          · exact ⟨.inr ⟨e, he, he'⟩, hboard, hboard'⟩
        · refine ⟨.inl ⟨s, rfl, rfl, .cons hpart ?_⟩, rfl, rfl⟩
          rw [List.forall₂_map_left_iff, List.forall₂_map_right_iff]
          exact hts.imp fun _ _ h => h.abort
      · exact ⟨.inr ⟨e, rfl, rfl⟩, rfl, rfl⟩

/-! ## The two trees -/

/-- The inverted sequence of `cs`, and the selector of the inverted `cs`. -/
inductive Dual (rs : Registries) (cs : List Blueprint) : LiveTree → LiveTree → Prop
  | node {c c₁ c' : Cell} {ts us : List LiveTree} : shapeAll ts = cs → List.Forall₂ (Inverted rs) ts us →
      Dual rs cs (.node inverterId [] c [.node sequenceId [] c₁ ts]) (.node selectorId [] c' us)

namespace Dual

variable {cs : List Blueprint} {t' : LiveTree}

theorem of_blank (h : t.Blank) (h' : t'.Blank) (hshape : t.shape = .inverter (.sequence cs))
    (hshape' : t'.shape = .selector (cs.map .inverter)) : Dual rs cs t t' := by
  obtain ⟨type, defaults, c, vs⟩ := t
  obtain ⟨type', defaults', c', us⟩ := t'
  rw [shape, Blueprint.inverter, Blueprint.node.injEq] at hshape
  rw [shape, Blueprint.selector, Blueprint.node.injEq] at hshape'
  obtain ⟨rfl, rfl, hvs⟩ := hshape
  obtain ⟨rfl, rfl, hus⟩ := hshape'
  obtain ⟨⟨type, defaults, c₁, ts⟩, rfl⟩ : ∃ v, vs = [v] :=
    List.length_eq_one_iff.mp (by rw [← length_shapeAll, hvs]; rfl)
  rw [shapeAll, shapeAll, shape, Blueprint.sequence, List.singleton_inj, Blueprint.node.injEq] at hvs
  obtain ⟨rfl, rfl, rfl⟩ := hvs
  rw [blank_node, List.forall_mem_singleton, blank_node] at h
  rw [blank_node] at h'
  exact .node rfl (allInverted_of_blank h.2.2 h'.2 hus)

theorem shape_eq (h : Dual rs cs t t') :
    t.shape = .inverter (.sequence cs) ∧ t'.shape = .selector (cs.map .inverter) := by
  obtain ⟨hts, hus⟩ := h
  refine ⟨by rw [shape, shapeAll, shapeAll, shape, hts]; rfl, ?_⟩
  rw [shape, Blueprint.selector, ← hts]
  congr 1
  clear hts
  induction hus with
  | nil => rfl
  | cons ht _ ih => rw [shapeAll, shapeAll, List.map_cons, ht.shape_eq, ih]

variable (hcs : ∀ c ∈ cs, c.SelfContained rs)

include hcs

theorem tick_opposed (h : Dual rs cs t t') (hlimit : 2 ≤ limit) (bb : Blackboard) :
    let o := t.tick rs limit 0 .top bb
    let o' := t'.tick rs limit 0 .top bb
    (∃ s, o.answer = .ok s ∧ o'.answer = .ok s ∧ Dual rs cs o.part o'.part) ∨
      ∃ e, o.answer = .error e ∧ o'.answer = .error (e.renumber (dualIndex cs)) := by
  intro o o'
  obtain @⟨c, c₁, c', ts, us, hts, hus⟩ := h
  have hinverter : NodeKind.ofType? inverterId = some .inverter := rfl
  have hsequence : NodeKind.ofType? sequenceId = some .sequence := rfl
  have hselector : NodeKind.ofType? selectorId = some .selector := rfl
  simp only [o, o', LiveTree.tick, hinverter, hsequence, hselector, tickFirst, if_neg (show ¬ limit ≤ 0 by omega),
    if_neg (show ¬ limit ≤ 0 + 1 by omega), Nat.zero_add]
  generalize NodeKind.inverter.activate [] c = a
  generalize NodeKind.sequence.activate [] c₁ = a₁
  generalize NodeKind.selector.activate [] c' = a'
  generalize hcx : ((Context.top.focus [a] []).focus [] (cellsAll [])).focus [a₁] [] = cx
  have hplace : Stretched (dualIndex cs) cx.index (Context.top.focus [a'] []).index (shapeAll ts) := by
    rw [← hcx, hts]
    exact stretched_dualIndex cs
  have hloop := tickWhile_opposed (show 1 < limit by omega) hus (fun t ht => hcs _ (hts ▸ shape_mem ht)) cx
    (Context.top.focus [a'] []) bb hplace
  have hshapes := shapeAll_tickWhile rs limit 2 .success cx bb ts
  generalize tickWhile rs limit 2 .success cx bb ts = p at hloop hshapes ⊢
  generalize tickWhile rs limit 1 .failure _ bb us = p' at hloop ⊢
  obtain ⟨answer, part, board⟩ := p
  obtain ⟨answer', part', board'⟩ := p'
  obtain ⟨⟨s, rfl, rfl, hparts⟩ | ⟨e, rfl, rfl⟩, rfl, rfl⟩ := hloop
  · exact .inl ⟨s.invert, rfl, rfl, .node (hshapes.trans hts) hparts⟩
  · exact .inr ⟨e, rfl, rfl⟩

/-- After a tick that fails nothing is recorded any more, here and there. -/
theorem tick (h : Dual rs cs t t') (hlimit : 2 ≤ limit) (bb : Blackboard) :
    let o := t.tick rs limit 0 .top bb
    let o' := t'.tick rs limit 0 .top bb
    EndsAs (dualIndex cs) Eq o.answer o'.answer ∧ Dual rs cs o.part o'.part := by
  intro o o'
  have hshape : o.part.shape = t.shape := shape_tick rs limit 0 .top bb t
  have hshape' : o'.part.shape = t'.shape := shape_tick rs limit 0 .top bb t'
  have hroom : 0 < limit := by omega
  obtain ⟨hlaid, hlaid'⟩ := h.shape_eq
  rcases h.tick_opposed hcs hlimit bb with ⟨s, hs, hs', hparts⟩ | ⟨e, he, he'⟩
  · change o.answer = _ at hs
    change o'.answer = _ at hs'
    rw [hs, hs']
    exact ⟨.ok rfl, hparts⟩
  · have hblank : o.part.Blank ∧ o'.part.Blank := by
      obtain ⟨-, -⟩ := h
      exact ⟨blank_of_tick rfl hroom he, blank_of_tick rfl hroom he'⟩
    change o.answer = _ at he
    change o'.answer = _ at he'
    rw [he, he']
    exact ⟨.error e, .of_blank hblank.1 hblank.2 (hshape.trans hlaid) (hshape'.trans hlaid')⟩

omit hcs in
theorem reset (h : Dual rs cs t t') : Dual rs cs t.reset.2 t'.reset.2 := by
  obtain ⟨hlaid, hlaid'⟩ := h.shape_eq
  rw [← shape_reset t] at hlaid
  rw [← shape_reset t'] at hlaid'
  obtain ⟨-, -⟩ := h
  exact .of_blank (blank_reset rfl) (blank_reset rfl) hlaid hlaid'

/-- The two trees stay side by side through all ticks and resets. -/
theorem called (hlimit : 2 ≤ limit) : ∀ (calls : List (Call × Blackboard)) {t t' : LiveTree}, Dual rs cs t t' →
    Dual rs cs (t.called rs limit calls) (t'.called rs limit calls)
  | [], _, _, h => h
  | (.tick, bb) :: rest, _, _, h => called hlimit rest (h.tick hcs hlimit bb).2
  | (.reset, _) :: rest, _, _, h => called hlimit rest h.reset

end Dual

/-- The children hold the same in both trees. -/
theorem cellsAll_inverted (h : List.Forall₂ (Inverted rs) ts us) : ∀ (pre pre' : List Cell),
    Stretched ρ pre.length pre'.length (shapeAll ts) → ∀ i, pre.length ≤ i →
      i < pre.length + Blueprint.sizeAll (shapeAll ts) →
      ∃ c c', (pre ++ cellsAll ts)[i]? = some c ∧ (pre' ++ cellsAll us)[ρ i]? = some c' ∧ Cell.Agree Eq c c' := by
  induction h with
  | nil =>
      intro pre pre' _ i hi hi'
      rw [shapeAll, Blueprint.sizeAll] at hi'
      omega
  | @cons t u ts us ht _ ih =>
      intro pre pre' hplace i hi hi'
      obtain @⟨t', d, ht, -⟩ := ht
      have hsize : t'.cells.length = t.cells.length := by
        rw [length_cells, length_cells, Corresponds.shape_eq t ht]
      rw [shapeAll, Stretched, ← length_cells] at hplace
      rw [shapeAll, Blueprint.sizeAll, ← length_cells] at hi'
      have hcells : pre' ++ cellsAll (.node inverterId [] d [t'] :: us) = pre' ++ [d] ++ (t'.cells ++ cellsAll us) := by
        simp [cellsAll, cells]
      rw [hcells, cellsAll]
      by_cases hfirst : i < pre.length + t.cells.length
      · exact forall₂_getElem?_at (Corresponds.cells_agree t ht) pre (pre' ++ [d]) (by simpa using hplace.1) hi hfirst
      · have h := ih (pre ++ t.cells) (pre' ++ [d] ++ t'.cells)
          (by simpa only [List.length_append, List.length_singleton, hsize] using hplace.2) i
          (by rw [List.length_append]; omega) (by rw [List.length_append]; omega)
        rwa [List.append_assoc pre, List.append_assoc (pre' ++ [d])] at h

theorem Dual.agree {cs : List Blueprint} {t' : LiveTree} (h : Dual rs cs t t') {i : Nat} (hi : 2 ≤ i)
    (hi' : i < t.shape.size) : ∃ c c', t.cells[i]? = some c ∧ t'.cells[dualIndex cs i]? = some c' ∧
      Cell.Agree Eq c c' := by
  obtain @⟨c, c₁, c', ts, us, rfl, hus⟩ := h
  rw [shape, Blueprint.size, shapeAll, shapeAll, Blueprint.sizeAll, Blueprint.sizeAll, shape, Blueprint.size] at hi'
  have hcells := cellsAll_inverted hus [c, c₁] [c'] (stretched_dualIndex _) i hi (by
    rw [List.length_cons, List.length_singleton]
    omega)
  rw [cells, cellsAll, cellsAll, cells, List.append_nil, cells]
  exact hcells

end LiveTree

/-! ## On the machine -/

variable {b b' : Blob} {m : Machine} {cs : List Blueprint}

/-- A selector of inverted children does what the inverted sequence of the children does, in every tick of every
run: it returns the same result, or fails with the same error, up to the numbers of nodes. And then the nodes of
the children have recorded the same results, and hold the same bytes while they run. -/
theorem selector_dual (hlib : ∀ x ∈ Library.behaviors, m.behavior? x.1 = some x.2) (htrace : m.config.trace = false)
    (hlimit : 2 ≤ m.config.maxTickDepth) (hcs : ∀ c ∈ cs, c.SelfContained m.registries)
    (hbuild : (Blueprint.inverter (.sequence cs)).build = .ok b)
    (hbuild' : (Blueprint.selector (cs.map .inverter)).build = .ok b') (calls : List (Call × Blackboard))
    (bb : Blackboard) :
    let t := (Tree.new b).called m calls
    let t' := (Tree.new b').called m calls
    Checked.EndsAs (dualIndex cs) (t.tick m bb).1 (t'.tick m bb).1 ∧
      ∀ i, 2 ≤ i → i < b.size → (t.tick m bb).2.1.Agrees Eq i (t'.tick m bb).2.1 (dualIndex cs i) := by
  intro t t'
  have hself : (Blueprint.inverter (.sequence cs)).SelfContained m.registries :=
    .node (by decide) (.of_ne (by decide) _ _) (List.forall_mem_singleton.mpr
      (.node (by decide) (.of_ne (by decide) _ _) hcs))
  have hself' : (Blueprint.selector (cs.map .inverter)).SelfContained m.registries := by
    refine .node (by decide) (.of_ne (by decide) _ _) (List.forall_mem_map.mpr fun c hc => ?_)
    exact .node (by decide) (.of_ne (by decide) _ _) (List.forall_mem_singleton.mpr (hcs c hc))
  obtain ⟨-, hans, hnext⟩ := called_tick_mirrors htrace hlib hself hbuild calls bb
  obtain ⟨-, hans', hnext'⟩ := called_tick_mirrors htrace hlib hself' hbuild' calls bb
  have hdual : Dual m.registries cs (fresh (.inverter (.sequence cs))) (fresh (.selector (cs.map .inverter))) :=
    .of_blank (blank_fresh _) (blank_fresh _) (shape_fresh _) (shape_fresh _)
  obtain ⟨hends, hparts⟩ := (hdual.called hcs hlimit calls).tick hcs hlimit bb
  rw [hans, hans']
  refine ⟨hends.ofExcept, fun i hi hi' => ?_⟩
  obtain ⟨c, c', hc, hc', hagree⟩ := hparts.agree hi (by rw [hnext.draws.size]; exact hi')
  exact hnext.agrees hnext' hc hc' hagree

/-- Two successes, then a node that runs until the next tick starts over. -/
def restless : List Blueprint := [.repetition 2 0 (.fixed .success), .fixed .running]

def Blob.restlessSequence : Blob :=
  ⟨⟨#[inverterId, sequenceId, repetitionId, fixedId, fixedId], #[5, 5, 4, 4, 5], #[0, 0, 0, 16, 24],
    #[0, 0, 12, 1, 1], #[2, 0, 1, 4]⟩, by decide⟩

def Blob.restlessSelector : Blob :=
  ⟨⟨#[selectorId, inverterId, repetitionId, fixedId, inverterId, fixedId], #[6, 4, 4, 4, 6, 6],
    #[0, 0, 0, 16, 24, 24], #[0, 0, 12, 1, 0, 1], #[2, 0, 1, 4]⟩, by decide⟩

theorem selector_dual_restlessSequence :
    let t := (Tree.new Blob.restlessSequence).called .ofLibrary [(.tick, .empty), (.tick, .empty)]
    let t' := (Tree.new Blob.restlessSelector).called .ofLibrary [(.tick, .empty), (.tick, .empty)]
    (Blueprint.inverter (.sequence restless)).build = .ok .restlessSequence ∧
      (Blueprint.selector (restless.map .inverter)).build = .ok .restlessSelector ∧
      t.inst.state 4 = .ok (some .running) ∧ (t.tick .ofLibrary .empty).2.1.inst.state 4 = .ok none ∧
      Checked.EndsAs (dualIndex restless) (t.tick .ofLibrary .empty).1 (t'.tick .ofLibrary .empty).1 ∧
      (t.tick .ofLibrary .empty).2.1.Agrees Eq 4 (t'.tick .ofLibrary .empty).2.1 5 := by
  intro t t'
  have hbuild : (Blueprint.inverter (.sequence restless)).build = .ok .restlessSequence := by decide +kernel
  have hbuild' : (Blueprint.selector (restless.map .inverter)).build = .ok .restlessSelector := by decide +kernel
  have hfixed (s : Status) : (Blueprint.fixed s).SelfContained Machine.ofLibrary.registries :=
    .node (by decide) (.of_ne (by decide) _ _) fun _ h => absurd h List.not_mem_nil
  have hcs : ∀ c ∈ restless, c.SelfContained Machine.ofLibrary.registries := by
    rw [restless, List.forall_mem_cons, List.forall_mem_singleton]
    exact ⟨.node (by decide) (.of_ne (by decide) _ _) (List.forall_mem_singleton.mpr (hfixed _)), hfixed _⟩
  obtain ⟨hends, hnodes⟩ := selector_dual Machine.HasLibrary.ofLibrary.behaviors rfl (by decide) hcs hbuild hbuild'
    [(.tick, .empty), (.tick, .empty)] .empty
  have hindex : dualIndex restless 4 = 5 := by decide +kernel
  have hnode := hnodes 4 (by decide) (by decide)
  rw [hindex] at hnode
  exact ⟨hbuild, hbuild', by decide +kernel, by decide +kernel, hends, by simpa only [t, t'] using hnode⟩

end BehaviorTree
