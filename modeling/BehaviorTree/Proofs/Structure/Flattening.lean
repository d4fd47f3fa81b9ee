import Mathlib.Data.List.Induction
import BehaviorTree.Proofs.Structure.Alongside
import BehaviorTree.Proofs.Structure.Loops

/-!
# A sequence in a sequence, a selector in a selector

The tree with the inner composite, and the tree with the children of the inner composite in its place. Both tick
the same children with the same results, and abort the same running ones. But with the inner composite all of
its children become inactive, also those that have completed.
-/

namespace BehaviorTree

open Library LiveTree

/-! ## Places -/

/-- Where a node stands once a composite behind the trees `as` has made way for its children. -/
def flatIndex (as : List Blueprint) (i : Nat) : Nat := if i ≤ Blueprint.sizeAll as then i else i - 1

theorem rigid_flatIndex_before (as : List Blueprint) : Rigid (flatIndex as) 1 1 (Blueprint.sizeAll as) :=
  fun j hj => if_pos (by omega)

theorem rigid_flatIndex_behind (as : List Blueprint) (k n : Nat) :
    Rigid (flatIndex as) (1 + Blueprint.sizeAll as + 1 + k) (1 + Blueprint.sizeAll as + k) n := fun j _ => by
  rw [flatIndex, if_neg (by omega)]
  omega

/-- The same record; or, only if `P`, none here and one of a completed tick there. -/
def LeftOver (P : Prop) (s s' : Option Status) : Prop :=
  s' = s ∨ P ∧ s = none ∧ ∃ r, s' = some r ∧ r ≠ .running

theorem LeftOver.refl {P : Prop} (s : Option Status) : LeftOver P s s := .inl rfl

theorem LeftOver.of_none {P : Prop} (hP : P) {s' : Option Status} (h : s' ≠ some .running) : LeftOver P none s' := by
  cases s' with
  | none => exact .refl none
  | some r => exact .inr ⟨hP, rfl, r, rfl, fun hr => h (congrArg some hr)⟩

theorem LeftOver.mono {P Q : Prop} (hPQ : P → Q) {s s' : Option Status} (h : LeftOver P s s') : LeftOver Q s s' :=
  h.imp_right fun h => ⟨hPQ h.1, h.2⟩

namespace LiveTree

variable {rs : Registries} {kind : NodeKind} {keep : Status} {limit : Nat} {as bs cs : List Blueprint} {P Q : Prop}
  {c : Cell} {ts ts' us us' : List LiveTree}

/-! ## The inner composite and what stands in its place -/

/-- From the inner composite on, which has the cell `c`, and from the first of its children on in its place. -/
inductive Unwrapped (rs : Registries) (kind : NodeKind) (bs cs : List Blueprint) (P : Prop) (c : Cell) :
    List LiveTree → List LiveTree → Prop
  | intro {us us' vs vs' : List LiveTree} : shapeAll us = bs → shapeAll vs = cs →
      List.Forall₂ (Corresponds rs (LeftOver P)) us us' → List.Forall₂ (Corresponds rs Eq) vs vs' →
      Unwrapped rs kind bs cs P c (.node kind.typeId [] c us :: vs) (us' ++ vs')

theorem Unwrapped.mono (h : Unwrapped rs kind bs cs P c ts ts') (hPQ : P → Q) :
    Unwrapped rs kind bs cs Q c ts ts' := by
  obtain ⟨hbs, hcs, hus, hvs⟩ := h
  exact .intro hbs hcs (hus.imp fun t _ h => h.mono (fun _ _ => .mono hPQ) t) hvs

/-- An aborted composite has no records of its children any more. In its place, the completed ones keep theirs. -/
theorem clear_leftOver (hQ : Q) (hus : List.Forall₂ (Corresponds rs (LeftOver P)) us us')
    (hq : ∀ u ∈ us', u.cell.state ≠ some .running → u.Quiet) :
    List.Forall₂ (Corresponds rs (LeftOver Q)) (us.map clear) (us'.map LiveTree.abort) := by
  induction hus with
  | nil => exact .nil
  | @cons t u ts us ht _ ih =>
      rw [List.forall_mem_cons] at hq
      have hshape := Corresponds.shape_eq t ht
      refine .cons ?_ (ih hq.2)
      unfold LiveTree.abort
      split
      · exact .clear .refl hshape
      · have hquiet := hq.1 ‹_›
        refine .of_quiet _ (blank_clear t).quiet hquiet (hshape.trans (shape_clear t).symm) fun c hc c' hc' => ?_
        rw [blank_clear t c hc]
        exact .of_none hQ (hquiet c' hc')

theorem map_abort_of_quiet (hus : List.Forall₂ (Corresponds rs (LeftOver P)) us us') (hq : ∀ u ∈ us, u.Quiet) :
    us'.map LiveTree.abort = us' := by
  induction hus with
  | nil => rfl
  | @cons t u ts us ht _ ih =>
      rw [List.forall_mem_cons] at hq
      obtain ⟨cs, hcs⟩ := t.cells_eq_cons
      have hrun : u.cell.state ≠ some .running := fun hr =>
        hq.1 t.cell (hcs ▸ List.mem_cons_self) (ht.running_iff.mp hr)
      rw [List.map_cons, ih hq.2, LiveTree.abort, if_neg hrun]

theorem Unwrapped.abort (h : Unwrapped rs kind bs cs P c ts ts')
    (hq : ∀ u ∈ ts, u.cell.state ≠ some .running → u.Quiet)
    (hq' : ∀ u ∈ ts', u.cell.state ≠ some .running → u.Quiet) :
    ∃ c₁, Unwrapped rs kind bs cs (P ∨ c.state = some .running ∧ c₁.state = none) c₁ (ts.map LiveTree.abort)
      (ts'.map LiveTree.abort) := by
  obtain @⟨us, us', vs, vs', hbs, hcs, hus, hvs⟩ := h
  rw [List.forall_mem_cons] at hq
  rw [List.forall_mem_append] at hq'
  have hlater := Corresponds.map_abort (fun _ => rfl) hvs
  have hlaid : shapeAll (vs.map LiveTree.abort) = cs := (shapeAll_map_abort vs).trans hcs
  rw [List.map_cons, List.map_append]
  by_cases hrun : c.state = some .running
  · refine ⟨c.clear, ?_⟩
    rw [LiveTree.abort, if_pos (show (node kind.typeId [] c us).cell.state = some .running from hrun), clear]
    refine .intro ((shapeAll_clearAll us).trans hbs) hlaid ?_ hlater
    rw [clearAll_eq_map]
    exact clear_leftOver (.inr ⟨hrun, rfl⟩) hus hq'.1
  · refine ⟨c, ?_⟩
    rw [LiveTree.abort, if_neg (show ¬ (node kind.typeId [] c us).cell.state = some .running from hrun),
      map_abort_of_quiet hus (quiet_node.mp (hq.1 hrun)).2]
    exact .mono (.intro hbs hlaid hus hlater) .inl

/-! ## Loops -/

/-- How the loops over the children end: with the same result, with the trees in this relation, or with the same
error, up to the numbers of nodes. -/
def EndInlined (ρ : Nat → Nat) (R : Cell → List LiveTree → List LiveTree → Prop)
    (o o' : Turn Status (List LiveTree)) : Prop :=
  (∃ s c, o.answer = .ok s ∧ o'.answer = .ok s ∧ R c o.part o'.part) ∨
    ∃ e, o.answer = .error e ∧ o'.answer = .error (e.renumber ρ)

section

variable (hkind : kind.GoesOn keep) {ρ : Nat → Nat}

include hkind

/-- The inner composite is left as its last child was. So the loop around it goes on or stops there as the loop
over the children in its place does. -/
theorem tickWhile_unwrapped (h : Unwrapped rs kind bs cs P c ts ts') (hlimit : 2 ≤ limit)
    (hbs : ∀ t ∈ bs, t.SelfContained rs ∧ 2 + t.height ≤ limit) (hcs : ∀ t ∈ cs, t.SelfContained rs)
    (cx cx' : Context) (hinner : Rigid ρ (cx.index + 1) cx'.index (Blueprint.sizeAll bs))
    (hlater : Rigid ρ (cx.index + 1 + Blueprint.sizeAll bs) (cx'.index + Blueprint.sizeAll bs) (Blueprint.sizeAll cs))
    (bb : Blackboard) : EndInlined ρ (Unwrapped rs kind bs cs P) (tickWhile rs limit 1 keep cx bb ts)
      (tickWhile rs limit 1 keep cx' bb ts') := by
  obtain @⟨us, us', vs, vs', rfl, rfl, hus, hvs⟩ := h
  rw [tickWhile_composite hkind hlimit, tickWhile_append]
  have hloop : Turn.Corresponds ρ (List.Forall₂ (Corresponds rs (LeftOver P))) bb
      (tickWhile rs limit 2 keep (cx.focus [kind.activate [] c] (cellsAll vs)) bb us)
      (tickWhile rs limit 1 keep (cx'.focus [] (cellsAll vs')) bb us') :=
    children_correspond .refl keep hus (fun t ht => (hbs t ht).1)
      (fun t ht => .inr ⟨(hbs t ht).2, by have := (hbs t ht).2; omega⟩) _ _
      (by simpa only [Context.index_focus, List.length_nil, List.length_singleton, Nat.add_zero] using hinner) bb
  have hshape := shapeAll_tickWhile rs limit 2 keep (cx.focus [kind.activate [] c] (cellsAll vs)) bb us
  simp only
  generalize tickWhile rs limit 2 keep (cx.focus [kind.activate [] c] (cellsAll vs)) bb us = o at hloop hshape ⊢
  generalize tickWhile rs limit 1 keep (cx'.focus [] (cellsAll vs')) bb us' = o' at hloop ⊢
  obtain ⟨answer, part, board⟩ := o
  obtain ⟨answer', part', board'⟩ := o'
  obtain ⟨hans, hpart, hboard, hboard'⟩ := hloop
  obtain rfl : bb = board := hboard.symm
  obtain rfl : bb = board' := hboard'.symm
  cases hans with
  | error e => exact .inr ⟨e, rfl, rfl⟩
  | @ok s s' hs =>
      cases hs
      by_cases hkeep : s = keep
      · simp only [if_pos hkeep]
        have hnext : Turn.Corresponds ρ (List.Forall₂ (Corresponds rs Eq)) bb
            (tickWhile rs limit 1 keep
              (cx.focus (node kind.typeId [] { kind.activate [] c with state := some s } part).cells []) bb vs)
            (tickWhile rs limit 1 keep (cx'.focus (cellsAll part') []) bb vs') :=
          children_correspond (fun _ => rfl) keep hvs hcs (fun _ _ => .inl rfl) _ _ (by
            rw [Context.index_focus, Context.index_focus, length_cells, length_cellsAll, shape, Blueprint.size,
              Corresponds.shapes_eq hpart, hshape, ← Nat.add_assoc]
            exact hlater) bb
        have hlaid := shapeAll_tickWhile rs limit 1 keep
          (cx.focus (node kind.typeId [] { kind.activate [] c with state := some s } part).cells []) bb vs
        generalize tickWhile rs limit 1 keep
          (cx.focus (node kind.typeId [] { kind.activate [] c with state := some s } part).cells []) bb vs = q
          at hnext hlaid ⊢
        generalize tickWhile rs limit 1 keep (cx'.focus (cellsAll part') []) bb vs' = q' at hnext ⊢
        obtain ⟨answer, later, board⟩ := q
        obtain ⟨answer', later', board'⟩ := q'
        obtain ⟨hans, hlater, -, -⟩ := hnext
        cases hans with
        | error e => exact .inr ⟨e, rfl, rfl⟩
        | ok hr =>
            cases hr
            exact .inl ⟨_, _, rfl, rfl, .intro hshape hlaid hpart hlater⟩
      · simp only [if_neg hkeep]
        refine .inl ⟨s, _, rfl, rfl, .intro hshape (shapeAll_map_abort vs) hpart ?_⟩
        exact Corresponds.map_abort (fun _ => rfl) hvs

omit hkind in
/-- The children of both roots. The inner composite stands behind the trees `as`. -/
inductive Inlined (rs : Registries) (kind : NodeKind) (as bs cs : List Blueprint) (P : Prop) (c : Cell) :
    List LiveTree → List LiveTree → Prop
  | intro {ts ts' us us' : List LiveTree} : shapeAll ts = as → List.Forall₂ (Corresponds rs Eq) ts ts' →
      Unwrapped rs kind bs cs P c us us' → Inlined rs kind as bs cs P c (ts ++ us) (ts' ++ us')

/-- The loop around the inner composite may preempt it. -/
theorem tickWhile_inlined (h : Inlined rs kind as bs cs P c ts ts') (hlimit : 2 ≤ limit)
    (has : ∀ t ∈ as, t.SelfContained rs) (hbs : ∀ t ∈ bs, t.SelfContained rs ∧ 2 + t.height ≤ limit)
    (hcs : ∀ t ∈ cs, t.SelfContained rs) (hq : ∀ u ∈ ts, u.cell.state ≠ some .running → u.Quiet)
    (hq' : ∀ u ∈ ts', u.cell.state ≠ some .running → u.Quiet) {cx cx' : Context} (hcx : cx.index = 1)
    (hcx' : cx'.index = 1) (bb : Blackboard) :
    EndInlined (flatIndex as)
      (fun c₁ => Inlined rs kind as bs cs (P ∨ c.state = some .running ∧ c₁.state = none) c₁)
      (tickWhile rs limit 1 keep cx bb ts) (tickWhile rs limit 1 keep cx' bb ts') := by
  obtain @⟨ts, ts', us, us', rfl, hts, hus⟩ := h
  rw [List.forall_mem_append] at hq hq'
  rw [tickWhile_append, tickWhile_append]
  have hloop : Turn.Corresponds (flatIndex (shapeAll ts)) (List.Forall₂ (Corresponds rs Eq)) bb
      (tickWhile rs limit 1 keep (cx.focus [] (cellsAll us)) bb ts)
      (tickWhile rs limit 1 keep (cx'.focus [] (cellsAll us')) bb ts') :=
    children_correspond (fun _ => rfl) keep hts has (fun _ _ => .inl rfl) _ _ (by
      rw [Context.index_focus, Context.index_focus, hcx, hcx']
      exact rigid_flatIndex_before _) bb
  have hshape := shapeAll_tickWhile rs limit 1 keep (cx.focus [] (cellsAll us)) bb ts
  simp only
  generalize tickWhile rs limit 1 keep (cx.focus [] (cellsAll us)) bb ts = o at hloop hshape ⊢
  generalize tickWhile rs limit 1 keep (cx'.focus [] (cellsAll us')) bb ts' = o' at hloop ⊢
  obtain ⟨answer, part, board⟩ := o
  obtain ⟨answer', part', board'⟩ := o'
  obtain ⟨hans, hpart, hboard, hboard'⟩ := hloop
  obtain rfl : bb = board := hboard.symm
  obtain rfl : bb = board' := hboard'.symm
  cases hans with
  | error e => exact .inr ⟨e, rfl, rfl⟩
  | @ok s s' hs =>
      cases hs
      by_cases hkeep : s = keep
      · simp only [if_pos hkeep]
        have hindex : (cx.focus (cellsAll part) []).index = 1 + Blueprint.sizeAll (shapeAll ts) := by
          rw [Context.index_focus, hcx, length_cellsAll, hshape]
        have hindex' : (cx'.focus (cellsAll part') []).index = 1 + Blueprint.sizeAll (shapeAll ts) := by
          rw [Context.index_focus, hcx', length_cellsAll, Corresponds.shapes_eq hpart, hshape]
        have hrest := tickWhile_unwrapped hkind hus hlimit hbs hcs (cx.focus (cellsAll part) [])
          (cx'.focus (cellsAll part') []) (by rw [hindex, hindex']; exact rigid_flatIndex_behind _ 0 _)
          (by rw [hindex, hindex']; exact rigid_flatIndex_behind _ _ _) bb
        rcases hrest with ⟨s, c₁, hs, hs', hrest⟩ | ⟨e, he, he'⟩
        · exact .inl ⟨s, c₁, hs, hs', .intro hshape hpart (hrest.mono .inl)⟩
        · exact .inr ⟨e, he, he'⟩
      · simp only [if_neg hkeep]
        obtain ⟨c₁, hrest⟩ := hus.abort hq.2 hq'.2
        exact .inl ⟨s, c₁, rfl, rfl, .intro hshape hpart hrest⟩

end

/-! ## The two trees -/

/-- A composite in a composite of the same kind. -/
def nested (kind : NodeKind) (as bs cs : List Blueprint) : Blueprint :=
  .node kind.typeId [] (as ++ .node kind.typeId [] bs :: cs)

/-- The outer composite with the children of the inner one in its place. -/
def flat (kind : NodeKind) (as bs cs : List Blueprint) : Blueprint := .node kind.typeId [] (as ++ (bs ++ cs))

/-- The tree with the inner composite, which has the cell `c`, and the tree with its children in its place. -/
inductive Flattened (rs : Registries) (kind : NodeKind) (as bs cs : List Blueprint) (P : Prop) (c : Cell) :
    LiveTree → LiveTree → Prop
  | node {c₀ c₀' : Cell} {ts ts' : List LiveTree} : Inlined rs kind as bs cs P c ts ts' →
      Flattened rs kind as bs cs P c (.node kind.typeId [] c₀ ts) (.node kind.typeId [] c₀' ts')

theorem correspond_of_blank {S : Option Status → Option Status → Prop} (hS : ∀ s, S s s) (h : ∀ t ∈ ts, t.Blank)
    (h' : ∀ t ∈ ts', t.Blank) (hshapes : shapeAll ts' = shapeAll ts) : List.Forall₂ (Corresponds rs S) ts ts' :=
  forall₂_of_shapes hshapes fun t ht t' ht' => .of_blank hS (h t ht) (h' t' ht')

theorem inlined_of_blank (h : ∀ t ∈ ts, t.Blank) (h' : ∀ t ∈ ts', t.Blank)
    (hshapes : shapeAll ts = as ++ .node kind.typeId [] bs :: cs) (hshapes' : shapeAll ts' = as ++ (bs ++ cs)) :
    ∃ c, Inlined rs kind as bs cs P c ts ts' := by
  simp only [shapeAll_eq_map, List.map_eq_append_iff, List.map_eq_cons_iff] at hshapes hshapes'
  obtain ⟨ts, _, rfl, hts, ⟨type, defaults, c, us⟩, vs, rfl, hinner, hvs⟩ := hshapes
  obtain ⟨ts', _, rfl, hts', us', vs', rfl, hus', hvs'⟩ := hshapes'
  rw [shape, Blueprint.node.injEq] at hinner
  obtain ⟨rfl, rfl, hus⟩ := hinner
  simp only [← shapeAll_eq_map] at hts hts' hvs hvs' hus'
  simp only [List.forall_mem_append, List.forall_mem_cons, blank_node] at h h'
  refine ⟨c, .intro hts ?_ (.intro hus hvs ?_ ?_)⟩
  · exact correspond_of_blank (fun _ => rfl) h.1 h'.1 (hts'.trans hts.symm)
  · exact correspond_of_blank .refl h.2.1.2 h'.2.1 (hus'.trans hus.symm)
  · exact correspond_of_blank (fun _ => rfl) h.2.2 h'.2.2 (hvs'.trans hvs.symm)

namespace Flattened

variable {t t' : LiveTree}

theorem of_blank (h : t.Blank) (h' : t'.Blank) (hshape : t.shape = nested kind as bs cs)
    (hshape' : t'.shape = flat kind as bs cs) : ∃ c, Flattened rs kind as bs cs P c t t' := by
  obtain ⟨type, defaults, c₀, ts⟩ := t
  obtain ⟨type', defaults', c₀', ts'⟩ := t'
  rw [shape, nested, Blueprint.node.injEq] at hshape
  rw [shape, flat, Blueprint.node.injEq] at hshape'
  obtain ⟨rfl, rfl, hts⟩ := hshape
  obtain ⟨rfl, rfl, hts'⟩ := hshape'
  rw [blank_node] at h h'
  obtain ⟨c, hc⟩ : ∃ c, Inlined rs kind as bs cs P c ts ts' := inlined_of_blank h.2 h'.2 hts hts'
  exact ⟨c, .node hc⟩

theorem mono (h : Flattened rs kind as bs cs P c t t') (hPQ : P → Q) : Flattened rs kind as bs cs Q c t t' := by
  obtain ⟨hts, htt, hrest⟩ := h
  exact .node (.intro hts htt (hrest.mono hPQ))

theorem kinds (h : Flattened rs kind as bs cs P c t t') :
    NodeKind.ofType? t.type = some kind ∧ NodeKind.ofType? t'.type = some kind := by
  obtain ⟨-⟩ := h
  exact ⟨kind.ofType?_typeId, kind.ofType?_typeId⟩

/-- A tick either leaves the trees in this relation or leaves no records at all. -/
theorem tick (hkind : kind.GoesOn keep) (h : Flattened rs kind as bs cs P c t t') (hlimit : 2 ≤ limit)
    (has : ∀ t ∈ as, t.SelfContained rs) (hbs : ∀ t ∈ bs, t.SelfContained rs ∧ 2 + t.height ≤ limit)
    (hcs : ∀ t ∈ cs, t.SelfContained rs) (hq : t.Orderly) (hq' : t'.Orderly) (bb : Blackboard) :
    let o := t.tick rs limit 0 .top bb
    let o' := t'.tick rs limit 0 .top bb
    (∃ s c₁, o.answer = .ok s ∧ o'.answer = .ok s ∧
      Flattened rs kind as bs cs (P ∨ c.state = some .running ∧ c₁.state = none) c₁ o.part o'.part) ∨
    ∃ e, o.answer = .error e ∧ o'.answer = .error (e.renumber (flatIndex as)) ∧ o.part.Blank ∧ o'.part.Blank := by
  intro o o'
  have hroom : 0 < limit := by omega
  have hblank : ∀ e, o.answer = .error e → o.part.Blank := fun _ => blank_of_tick h.kinds.1 hroom
  have hblank' : ∀ e, o'.answer = .error e → o'.part.Blank := fun _ => blank_of_tick h.kinds.2 hroom
  obtain @⟨c₀, c₀', ts, ts', hts⟩ := h
  have hcx : ∀ a, (Context.top.focus [a] []).index = 1 := fun _ => rfl
  rcases tickWhile_inlined hkind hts hlimit has hbs hcs hq hq' (hcx (kind.activate [] c₀))
    (hcx (kind.activate [] c₀')) bb with ⟨s, c₁, hs, hs', hparts⟩ | ⟨e, he, he'⟩
  · have ho : o = _ := composite_ok hkind hroom rfl hs
    have ho' : o' = _ := composite_ok hkind hroom rfl hs'
    rw [ho, ho']
    exact .inl ⟨s, c₁, rfl, rfl, .node hparts⟩
  · have ho : o.answer = .error e := composite_error hkind hroom rfl he
    have ho' : o'.answer = .error (e.renumber (flatIndex as)) := composite_error hkind hroom rfl he'
    exact .inr ⟨e, ho, ho', hblank _ ho, hblank' _ ho'⟩

/-! ### Cells -/

theorem cells_eq (h : Flattened rs kind as bs cs P c t t') : ∃ pre xs ys zs pre' xs' ys' zs',
    t.cells = pre :: (xs ++ (c :: (ys ++ zs))) ∧ t'.cells = pre' :: (xs' ++ (ys' ++ zs')) ∧
      xs.length = Blueprint.sizeAll as ∧ ys.length = Blueprint.sizeAll bs ∧ zs.length = Blueprint.sizeAll cs ∧
      List.Forall₂ (Cell.Agree Eq) xs xs' ∧ List.Forall₂ (Cell.Agree (LeftOver P)) ys ys' ∧
      List.Forall₂ (Cell.Agree Eq) zs zs' := by
  obtain @⟨c₀, c₀', _, _, @⟨ts, ts', _, _, rfl, hts, @⟨us, us', vs, vs', rfl, rfl, hus, hvs⟩⟩⟩ := h
  have hagree : ∀ {S : Option Status → Option Status → Prop} {ts ts' : List LiveTree},
      List.Forall₂ (Corresponds rs S) ts ts' → List.Forall₂ (Cell.Agree S) (cellsAll ts) (cellsAll ts') :=
    fun h => cellsAll_agree h fun t _ _ => Corresponds.cells_agree t
  refine ⟨c₀, cellsAll ts, cellsAll us, cellsAll vs, c₀', cellsAll ts', cellsAll us', cellsAll vs', ?_, ?_,
    length_cellsAll ts, length_cellsAll us, length_cellsAll vs, hagree hts, hagree hus, hagree hvs⟩
  · rw [cells, cellsAll_append, cellsAll, cells, List.cons_append]
  · rw [cells, cellsAll_append, cellsAll_append]

theorem inner_cell (h : Flattened rs kind as bs cs P c t t') : t.cells[1 + Blueprint.sizeAll as]? = some c := by
  obtain ⟨pre, xs, ys, zs, -, -, -, -, hcells, -, hxs, -⟩ := h.cells_eq
  rw [hcells, Nat.add_comm, List.getElem?_cons_succ, ← hxs, List.getElem?_append_right (Nat.le_refl _), Nat.sub_self]
  rfl

/-- The nodes of the other children are the same. -/
theorem agree_outside (h : Flattened rs kind as bs cs P c t t') {i : Nat} (hi : 1 ≤ i) (hsize : i < t.shape.size)
    (hout : i < 1 + Blueprint.sizeAll as ∨ 1 + Blueprint.sizeAll as + Blueprint.sizeAll bs < i) :
    ∃ x x', t.cells[i]? = some x ∧ t'.cells[flatIndex as i]? = some x' ∧ Cell.Agree Eq x x' := by
  obtain ⟨pre, xs, ys, zs, pre', xs', ys', zs', hcells, hcells', hxs, hys, hzs, hxx, hyy, hzz⟩ := h.cells_eq
  rw [← length_cells, hcells] at hsize
  simp only [List.length_cons, List.length_append] at hsize
  rcases hout with hbefore | hbehind
  · rw [hcells, hcells']
    exact forall₂_getElem?_at hxx [pre] [pre'] (by rw [hxs]; exact rigid_flatIndex_before as) hi
      (by rw [hxs]; exact hbefore)
  · have hlast : t.cells = (pre :: xs ++ c :: ys) ++ (zs ++ []) := by
      rw [hcells]
      simp only [List.append_assoc, List.cons_append, List.append_nil]
    have hlast' : t'.cells = (pre' :: xs' ++ ys') ++ (zs' ++ []) := by
      rw [hcells']
      simp only [List.append_assoc, List.cons_append, List.append_nil]
    have hlength : (pre :: xs ++ c :: ys).length = 1 + Blueprint.sizeAll as + 1 + Blueprint.sizeAll bs := by
      simp only [List.length_append, List.length_cons, hxs, hys]
      omega
    have hlength' : (pre' :: xs' ++ ys').length = 1 + Blueprint.sizeAll as + Blueprint.sizeAll bs := by
      simp only [List.length_append, List.length_cons, ← hxx.length_eq, ← hyy.length_eq, hxs, hys]
      omega
    rw [hlast, hlast']
    exact forall₂_getElem?_at hzz _ _ (by rw [hlength, hlength']; exact rigid_flatIndex_behind as _ _) (by omega)
      (by omega)

/-- So are those of the inner composite's children, but for records left over. -/
theorem agree_inside (h : Flattened rs kind as bs cs P c t t') {i : Nat} (hi : 1 + Blueprint.sizeAll as < i)
    (hi' : i ≤ 1 + Blueprint.sizeAll as + Blueprint.sizeAll bs) :
    ∃ x x', t.cells[i]? = some x ∧ t'.cells[flatIndex as i]? = some x' ∧ Cell.Agree (LeftOver P) x x' := by
  obtain ⟨pre, xs, ys, zs, pre', xs', ys', zs', hcells, hcells', hxs, hys, -, hxx, hyy, -⟩ := h.cells_eq
  have hmiddle : t.cells = (pre :: xs ++ [c]) ++ (ys ++ zs) := by
    rw [hcells]
    simp only [List.append_assoc, List.cons_append, List.nil_append]
  have hlength : (pre :: xs ++ [c]).length = 1 + Blueprint.sizeAll as + 1 := by
    simp only [List.length_append, List.length_cons, List.length_nil, hxs]
    omega
  have hlength' : (pre' :: xs').length = 1 + Blueprint.sizeAll as := by
    rw [List.length_cons, ← hxx.length_eq, hxs, Nat.add_comm]
  rw [hmiddle, hcells', ← List.cons_append]
  exact forall₂_getElem?_at hyy _ _ (by rw [hlength, hlength']; exact rigid_flatIndex_behind as 0 _) (by omega)
    (by omega)

end Flattened

end LiveTree

/-! ## On the machine -/

variable {b b' : Blob} {m : Machine}

/-- The latest ticks of a run ended with results, and one of them preempted node `i`. -/
inductive Tree.Preempted (t : Tree b) (m : Machine) (i : Nat) : List (Call × Blackboard) → Prop
  | now {calls : List (Call × Blackboard)} {bb : Blackboard} {s : Status} :
      ((t.called m calls).tick m bb).1 = .ok s → (t.called m calls).inst.state i = .ok (some .running) →
      ((t.called m calls).tick m bb).2.1.inst.state i = .ok none → Preempted t m i (calls ++ [(.tick, bb)])
  | before {calls : List (Call × Blackboard)} {bb : Blackboard} {s : Status} :
      ((t.called m calls).tick m bb).1 = .ok s → Preempted t m i calls → Preempted t m i (calls ++ [(.tick, bb)])

section

variable {kind : NodeKind} {keep : Status} {as bs cs : List Blueprint}

section

variable (hkind : kind.GoesOn keep)

include hkind

theorem selfContained_composite {rs : Registries} {ts : List Blueprint} (h : ∀ t ∈ ts, t.SelfContained rs) :
    (Blueprint.node kind.typeId [] ts).SelfContained rs := by
  cases hkind with
  | sequence => exact .node (by decide) (.of_ne (by decide) rs _) h
  | selector => exact .node (by decide) (.of_ne (by decide) rs _) h

variable {rs : Registries} (has : ∀ t ∈ as, t.SelfContained rs) (hbs : ∀ t ∈ bs, t.SelfContained rs)
  (hcs : ∀ t ∈ cs, t.SelfContained rs)

include has hbs hcs

theorem selfContained_nested : (nested kind as bs cs).SelfContained rs :=
  selfContained_composite hkind (List.forall_mem_append.mpr
    ⟨has, List.forall_mem_cons.mpr ⟨selfContained_composite hkind hbs, hcs⟩⟩)

theorem selfContained_flat : (flat kind as bs cs).SelfContained rs :=
  selfContained_composite hkind (List.forall_mem_append.mpr ⟨has, List.forall_mem_append.mpr ⟨hbs, hcs⟩⟩)

end

theorem room_of_nested {limit : Nat} (h : (nested kind as bs cs).height ≤ limit) :
    2 ≤ limit ∧ ∀ t ∈ bs, 2 + t.height ≤ limit := by
  have hmem : Blueprint.node kind.typeId [] bs ∈ as ++ .node kind.typeId [] bs :: cs :=
    List.mem_append_right as List.mem_cons_self
  have hinner := Blueprint.height_le_heightAll hmem
  rw [nested, Blueprint.height] at h
  rw [Blueprint.height] at hinner
  refine ⟨by omega, fun t ht => ?_⟩
  have := Blueprint.height_le_heightAll ht
  omega

variable (hlib : ∀ x ∈ Library.behaviors, m.behavior? x.1 = some x.2) (htrace : m.config.trace = false)
  (hkind : kind.GoesOn keep) (has : ∀ t ∈ as, t.SelfContained m.registries)
  (hbs : ∀ t ∈ bs, t.SelfContained m.registries) (hcs : ∀ t ∈ cs, t.SelfContained m.registries)
  (hdepth : (nested kind as bs cs).height ≤ m.config.maxTickDepth) (hbuild : (nested kind as bs cs).build = .ok b)
  (hbuild' : (flat kind as bs cs).build = .ok b')

include hlib htrace hkind has hbs hcs hdepth hbuild hbuild'

theorem flattened_tick (calls : List (Call × Blackboard)) (bb : Blackboard) {c : Cell}
    (h : Flattened m.registries kind as bs cs ((Tree.new b).Preempted m (1 + Blueprint.sizeAll as) calls) c
      ((fresh (nested kind as bs cs)).called m.registries m.config.maxTickDepth calls)
      ((fresh (flat kind as bs cs)).called m.registries m.config.maxTickDepth calls)) :
    let x := (Tree.new b).called m calls
    let x' := (Tree.new b').called m calls
    let next := calls ++ [(.tick, bb)]
    Checked.EndsAs (flatIndex as) (x.tick m bb).1 (x'.tick m bb).1 ∧
      ∃ c₁, Flattened m.registries kind as bs cs ((Tree.new b).Preempted m (1 + Blueprint.sizeAll as) next) c₁
        ((fresh (nested kind as bs cs)).called m.registries m.config.maxTickDepth next)
        ((fresh (flat kind as bs cs)).called m.registries m.config.maxTickDepth next) := by
  intro x x' next
  have hself := selfContained_nested hkind has hbs hcs
  have hself' := selfContained_flat hkind has hbs hcs
  obtain ⟨hlimit, hroom⟩ := room_of_nested hdepth
  obtain ⟨hmirror, hans, hnext⟩ := called_tick_mirrors htrace hlib hself hbuild calls bb
  obtain ⟨hmirror', hans', hnext'⟩ := called_tick_mirrors htrace hlib hself' hbuild' calls bb
  have hlib₁ := hself.ofLibrary (Blueprint.build_draws hbuild)
  have hlib₁' := hself'.ofLibrary (Blueprint.build_draws hbuild')
  have horderly := hmirror.orderly (Tree.called_everywhere hlib hlib₁ calls)
  have horderly' := hmirror'.orderly (Tree.called_everywhere hlib hlib₁' calls)
  rw [called_append, called_append, hans, hans']
  rcases h.tick hkind hlimit has (fun t ht => ⟨hbs t ht, hroom t ht⟩) hcs horderly horderly' bb with
    ⟨s, c₁, ho, ho', hparts⟩ | ⟨e, ho, ho', hblank, hblank'⟩
  · have hok : (x.tick m bb).1 = .ok s := by rw [hans, ho]; rfl
    have hbefore := hmirror.cell_eq h.inner_cell
    have hafter := hnext.cell_eq hparts.inner_cell
    rw [ho, ho']
    refine ⟨.inl ⟨s, rfl, rfl⟩, c₁, hparts.mono fun hP => hP.elim (.before hok) fun hnow => .now hok ?_ ?_⟩
    · rw [Instance.state_eq _ hbefore.1, hbefore.2, hnow.1]
    · rw [Instance.state_eq _ hafter.1, hafter.2, hnow.2]
  · rw [ho, ho']
    refine ⟨.inr ⟨e, rfl, rfl⟩, Flattened.of_blank hblank hblank' ?_ ?_⟩
    · rw [shape_called, shape_called, shape_fresh]
    · rw [shape_called, shape_called, shape_fresh]

theorem flattened_called (calls : List (Call × Blackboard)) :
    ∃ c, Flattened m.registries kind as bs cs ((Tree.new b).Preempted m (1 + Blueprint.sizeAll as) calls) c
      ((fresh (nested kind as bs cs)).called m.registries m.config.maxTickDepth calls)
      ((fresh (flat kind as bs cs)).called m.registries m.config.maxTickDepth calls) := by
  induction calls using List.reverseRecOn with
  | nil => exact Flattened.of_blank (blank_fresh _) (blank_fresh _) (shape_fresh _) (shape_fresh _)
  | append_singleton calls x ih =>
      obtain ⟨c, h⟩ := ih
      obtain ⟨⟨⟩, bb⟩ := x
      · exact (flattened_tick hlib htrace hkind has hbs hcs hdepth hbuild hbuild' calls bb h).2
      · rw [called_append, called_append]
        refine Flattened.of_blank (blank_reset h.kinds.1) (blank_reset h.kinds.2) ?_ ?_
        · exact (shape_reset _).trans ((shape_called ..).trans (shape_fresh _))
        · exact (shape_reset _).trans ((shape_called ..).trans (shape_fresh _))

end

/-- A composite in a composite of the same kind does in every tick of every run what the outer one does with the
children of the inner one in its place: it returns the same result, or fails with the same error, up to the
numbers of nodes. And then nodes hold the same bytes while they run, and have recorded the same results, but for
one case: since a tick preempted the inner composite, which made all of its children inactive, a node below it
may have no record where it still has one of a completed tick in the flat tree. -/
theorem nested_composites_flatten (hlib : ∀ x ∈ Library.behaviors, m.behavior? x.1 = some x.2)
    (htrace : m.config.trace = false) {compose : List Blueprint → Blueprint}
    (hcompose : compose = .sequence ∨ compose = .selector) {as bs cs : List Blueprint}
    (hself : ∀ t ∈ as ++ bs ++ cs, t.SelfContained m.registries)
    (hdepth : (compose (as ++ [compose bs] ++ cs)).height ≤ m.config.maxTickDepth)
    (hbuild : (compose (as ++ [compose bs] ++ cs)).build = .ok b) (hbuild' : (compose (as ++ bs ++ cs)).build = .ok b')
    (calls : List (Call × Blackboard)) (bb : Blackboard) :
    let inner := 1 + Blueprint.sizeAll as
    let last := inner + Blueprint.sizeAll bs
    let t := (Tree.new b).called m calls
    let t' := (Tree.new b').called m calls
    Checked.EndsAs (flatIndex as) (t.tick m bb).1 (t'.tick m bb).1 ∧
      (∀ i, 1 ≤ i → i < b.size → i < inner ∨ last < i →
        (t.tick m bb).2.1.Agrees Eq i (t'.tick m bb).2.1 (flatIndex as i)) ∧
      ∀ i, inner < i → i ≤ last →
        (t.tick m bb).2.1.Agrees (LeftOver ((Tree.new b).Preempted m inner (calls ++ [(.tick, bb)]))) i
          (t'.tick m bb).2.1 (flatIndex as i) := by
  intro inner last t t'
  obtain ⟨kind, keep, hkind, hnode⟩ : ∃ kind keep, NodeKind.GoesOn kind keep ∧
      compose = .node kind.typeId [] := by
    rcases hcompose with rfl | rfl
    · exact ⟨_, _, .sequence, rfl⟩
    · exact ⟨_, _, .selector, rfl⟩
  subst hnode
  rw [List.append_assoc] at hdepth hbuild hbuild'
  simp only [List.forall_mem_append] at hself
  obtain ⟨⟨has, hbs⟩, hcs⟩ := hself
  obtain ⟨c, h⟩ := flattened_called hlib htrace hkind has hbs hcs hdepth hbuild hbuild' calls
  obtain ⟨hans, c₁, hparts⟩ := flattened_tick hlib htrace hkind has hbs hcs hdepth hbuild hbuild' calls bb h
  obtain ⟨-, -, hnext⟩ := called_tick_mirrors htrace hlib (selfContained_nested hkind has hbs hcs) hbuild
    calls bb
  obtain ⟨-, -, hnext'⟩ := called_tick_mirrors htrace hlib (selfContained_flat hkind has hbs hcs) hbuild'
    calls bb
  rw [called_append, called_append] at hparts
  refine ⟨hans, fun i hi hsize hout => ?_, fun i hi hi' => ?_⟩
  · obtain ⟨x, x', hx, hx', hagree⟩ := hparts.agree_outside hi (Nat.lt_of_lt_of_eq hsize hnext.draws.size.symm)
      hout
    exact hnext.agrees hnext' hx hx' hagree
  · obtain ⟨x, x', hx, hx', hagree⟩ := hparts.agree_inside hi hi'
    exact hnext.agrees hnext' hx hx' hagree

/-- Two successes, over and over. -/
def restarting : List Blueprint := [.repetition 2 0 (.fixed .success)]

/-- A node that is done, and one that never is. -/
def halfway : List Blueprint := [.fixed .success, .fixed .running]

def Blob.nestedHalfway : Blob :=
  ⟨⟨#[sequenceId, repetitionId, fixedId, sequenceId, fixedId, fixedId], #[6, 3, 3, 6, 5, 6], #[0, 0, 16, 24, 24, 32],
    #[0, 12, 1, 0, 1, 1], #[2, 0, 1, 1, 4]⟩, by decide⟩

def Blob.flatHalfway : Blob :=
  ⟨⟨#[sequenceId, repetitionId, fixedId, fixedId, fixedId], #[5, 3, 3, 4, 5], #[0, 0, 16, 24, 32],
    #[0, 12, 1, 1, 1], #[2, 0, 1, 1, 4]⟩, by decide⟩

theorem halfway_builds :
    (Blueprint.sequence (restarting ++ [.sequence halfway] ++ [])).build = .ok .nestedHalfway ∧
      (Blueprint.sequence (restarting ++ halfway ++ [])).build = .ok .flatHalfway ∧
      (Blueprint.sequence (restarting ++ [.sequence halfway] ++ [])).height ≤ Machine.ofLibrary.config.maxTickDepth ∧
      ∀ t ∈ restarting ++ halfway ++ [], t.SelfContained Machine.ofLibrary.registries := by
  have hfixed (s : Status) : (Blueprint.fixed s).SelfContained Machine.ofLibrary.registries :=
    .node (by decide) (.of_ne (by decide) _ _) fun _ h => absurd h List.not_mem_nil
  have hrepetition : (Blueprint.repetition 2 0 (.fixed .success)).SelfContained Machine.ofLibrary.registries :=
    .node (by decide) (.of_ne (by decide) _ _) (List.forall_mem_singleton.mpr (hfixed _))
  refine ⟨by decide +kernel, by decide +kernel, by decide +kernel, ?_⟩
  rw [List.append_nil, restarting, halfway, List.singleton_append, List.forall_mem_cons, List.forall_mem_cons,
    List.forall_mem_singleton]
  exact ⟨hrepetition, hfixed _, hfixed _⟩

theorem nested_composites_flatten_halfway :
    let twice : List (Call × Blackboard) := [(.tick, .empty), (.tick, .empty)]
    let x := ((Tree.new Blob.nestedHalfway).called .ofLibrary twice).tick .ofLibrary .empty
    let x' := ((Tree.new Blob.flatHalfway).called .ofLibrary twice).tick .ofLibrary .empty
    x.1 = .ok .running ∧ Checked.EndsAs (flatIndex restarting) x.1 x'.1 ∧
      x.2.1.Agrees Eq 1 x'.2.1 (flatIndex restarting 1) ∧
      x.2.1.Agrees (LeftOver ((Tree.new Blob.nestedHalfway).Preempted .ofLibrary 3
        (twice ++ [(.tick, .empty)]))) 4 x'.2.1 (flatIndex restarting 4) := by
  intro twice x x'
  obtain ⟨hbuild, hbuild', hdepth, hself⟩ := halfway_builds
  obtain ⟨hans, houtside, hinside⟩ := nested_composites_flatten Machine.HasLibrary.ofLibrary.behaviors rfl (.inl rfl)
    hself hdepth hbuild hbuild' twice .empty
  have hsize : Blueprint.sizeAll restarting = 2 ∧ Blueprint.sizeAll halfway = 2 := by decide +kernel
  have hrepetition := houtside 1 (Nat.le_refl 1) (by decide) (.inl (by rw [hsize.1]; decide))
  have hfirst := hinside 4 (by rw [hsize.1]; decide) (by rw [hsize.1]; decide)
  rw [hsize.1] at hfirst
  exact ⟨by decide +kernel, hans, by simpa only [x, x'] using hrepetition, by simpa only [x, x'] using hfirst⟩

/-- The third tick starts the repetition again and preempts the inner sequence. Then its first child has no record
any more, but the success of that child is still recorded where it is a child of the outer sequence. -/
theorem flat_keeps_completed :
    let twice : List (Call × Blackboard) := [(.tick, .empty), (.tick, .empty)]
    let x := ((Tree.new Blob.nestedHalfway).called .ofLibrary twice).tick .ofLibrary .empty
    let x' := ((Tree.new Blob.flatHalfway).called .ofLibrary twice).tick .ofLibrary .empty
    ((Blueprint.sequence (restarting ++ [.sequence halfway] ++ [])).build = .ok .nestedHalfway ∧
      (Blueprint.sequence (restarting ++ halfway ++ [])).build = .ok .flatHalfway ∧
      (Blueprint.sequence (restarting ++ [.sequence halfway] ++ [])).height ≤ Machine.ofLibrary.config.maxTickDepth ∧
      ∀ t ∈ restarting ++ halfway ++ [], t.SelfContained Machine.ofLibrary.registries) ∧
    x.2.1.inst.state 4 = .ok none ∧ x'.2.1.inst.state (flatIndex restarting 4) = .ok (some .success) ∧
      ¬ x.2.1.Agrees Eq 4 x'.2.1 (flatIndex restarting 4) := by
  intro twice x x'
  have hstate : x.2.1.inst.state 4 = .ok none := by decide +kernel
  have hstate' : x'.2.1.inst.state (flatIndex restarting 4) = .ok (some .success) := by decide +kernel
  refine ⟨halfway_builds, hstate, hstate', ?_⟩
  rintro ⟨r, r', hr, hr', heq, -⟩
  cases hstate.symm.trans hr
  cases hstate'.symm.trans hr'
  cases heq

end BehaviorTree
