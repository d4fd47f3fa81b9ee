import BehaviorTree.Proofs.Layout.Rebuild
import BehaviorTree.Proofs.Library.Skips
import BehaviorTree.Proofs.Structure.Refinement
import BehaviorTree.Proofs.Structure.Separate
import BehaviorTree.Proofs.Trace.Untraced

/-!
# A parallel runs its children as trees of their own

The tree of a parallel and the trees of its children, each built and ticked on its own, are followed in the
interpreter, where the children of the parallel keep in step with the others.
-/

namespace BehaviorTree

open Library LiveTree

variable {b : Blob} {m : Machine}

/-! ## Live trees for trees in use -/

namespace LiveTree

mutual

theorem exists_of_cells (t : Blueprint) : ∀ cs : List Cell, cs.length = t.size → ∃ lt : LiveTree,
    lt.shape = t ∧ lt.cells = cs := by
  match t with
  | .node type data children =>
      intro cs hcs
      rw [Blueprint.size, Nat.add_comm] at hcs
      obtain ⟨c, cs, rfl⟩ := List.exists_cons_of_length_eq_add_one hcs
      rw [List.length_cons, Nat.add_right_cancel_iff] at hcs
      obtain ⟨ts, rfl, rfl⟩ := existsAll_of_cells children cs hcs
      exact ⟨node type data c ts, by rw [shape], by rw [cells]⟩

theorem existsAll_of_cells (ts : List Blueprint) : ∀ cs : List Cell, cs.length = Blueprint.sizeAll ts →
    ∃ lts : List LiveTree, shapeAll lts = ts ∧ cellsAll lts = cs := by
  match ts with
  | [] =>
      intro cs hcs
      exact ⟨[], rfl, (List.eq_nil_of_length_eq_zero hcs).symm⟩
  | t :: ts =>
      intro cs hcs
      rw [Blueprint.sizeAll] at hcs
      obtain ⟨lt, rfl, hlt⟩ := exists_of_cells t (cs.take t.size) (by rw [List.length_take]; omega)
      obtain ⟨lts, rfl, hlts⟩ := existsAll_of_cells ts (cs.drop lt.shape.size) (by rw [List.length_drop]; omega)
      refine ⟨lt :: lts, by rw [shapeAll], ?_⟩
      rw [cellsAll, hlt, hlts, List.take_append_drop]

end

/-- The root of a tree in a list is where its cell is. -/
theorem exists_root {ts : List LiveTree} : ∀ (pre : List Cell) {k : Nat} {t : LiveTree}, ts[k]? = some t →
    ∃ i, (Blueprint.roots pre.length (shapeAll ts))[k]? = some i ∧ (pre ++ cellsAll ts)[i]? = some t.cell := by
  induction ts with
  | nil =>
      intro pre k t h
      cases h
  | cons u us ih =>
      intro pre k t h
      rw [shapeAll, Blueprint.roots, cellsAll]
      cases k with
      | zero =>
          cases h
          obtain ⟨cs, hcs⟩ := u.cells_eq_cons
          refine ⟨pre.length, rfl, ?_⟩
          rw [List.getElem?_append_right (Nat.le_refl _), Nat.sub_self, hcs]
          rfl
      | succ k =>
          obtain ⟨i, hi, hcell⟩ := ih (pre ++ u.cells) h
          rw [List.length_append, length_cells] at hi
          refine ⟨i, hi, ?_⟩
          rw [← hcell, List.append_assoc]

end LiveTree

namespace Mirrors

variable {t : Tree b} {lt : LiveTree}

theorem exists_of_draws {s : Blueprint} (hdraw : b.Draws 0 s) (hdepth : t.inst.depth = 0) :
    ∃ lt : LiveTree, lt.shape = s ∧ Mirrors t lt := by
  obtain ⟨lt, rfl, hcells⟩ := exists_of_cells s t.inst.cells (by rw [Instance.length_cells, hdraw.size])
  exact ⟨lt, rfl, hdraw, hcells.symm, hdepth⟩

theorem cell_eq (h : Mirrors t lt) {i : Nat} {c : Cell} (hc : lt.cells[i]? = some c) :
    i < b.size ∧ t.inst.cell i = c := by
  rw [← h.cells] at hc
  have hi : i < b.size := Nat.lt_of_not_le fun hle => by
    rw [t.inst.getElem?_cells_of_le hle] at hc
    cases hc
  rw [t.inst.getElem?_cells hi] at hc
  exact ⟨hi, Option.some.inj hc⟩

theorem root_eq (h : Mirrors t lt) : t.inst.cell 0 = lt.cell := by
  obtain ⟨cs, hcs⟩ := lt.cells_eq_cons
  exact (h.cell_eq (by rw [hcs]; rfl)).2

theorem quiet_iff (h : Mirrors t lt) : lt.Quiet ↔ ∀ i, ¬ t.inst.Running i := by
  unfold LiveTree.Quiet
  rw [← h.cells, Instance.cells, List.forall_mem_map]
  exact ⟨fun hq i hr => hq i (List.mem_range.mpr (Instance.Running.lt hr)) hr, fun hq i _ => hq i⟩

end Mirrors

/-! ## Runs -/

section

variable (hlib : ∀ x ∈ Library.behaviors, m.behavior? x.1 = some x.2) (hb : b.OfLibrary)

include hlib hb

/-- Of the data of library nodes nothing is asked here, and no fault is excluded. -/
abbrev Blob.OfLibrary.typing : Typing b m := .ofStandard b fun _ _ hbh => .inl (hb.behaviorAt hlib hbh)

theorem Blob.OfLibrary.onlyLibrary : m.OnlyLibrary b :=
  .of_library hlib fun i type htype hforeign => absurd (hb i type htype) hforeign

/-- A tick follows the interpreter, traced or not, if the trace can be written. -/
theorem tick_mirrors_of_records {t : Tree b} {lt : LiveTree} (ht : t.Settled m) (h : Mirrors t lt) {bb : Blackboard}
    (hbb : m.Records bb) : let o := lt.tick m.registries m.config.maxTickDepth 0 .top bb
    (t.tick m bb).1 = Checked.ofExcept o.answer ∧ Mirrors (t.tick m bb).2.1 o.part := by
  obtain ⟨hr, htree⟩ := Tree.tick_untraced hlib hb ht hbb
  have hm : m.untraced.OnlyLibrary b := hb.onlyLibrary (m := m.untraced) hlib
  obtain ⟨hanswer, -, hnext⟩ := tick_mirrors rfl hm h bb
  rw [hr] at hanswer
  rw [htree] at hnext
  exact ⟨hanswer, hnext⟩

theorem Tree.Settled.ticked {t : Tree b} (ht : t.Settled m) (bbs : Nat → Blackboard) (n : Nat) :
    (t.ticked m bbs n).Settled m :=
  Tree.ticked_induction (P := Tree.Settled m) (fun j _ _ ht => ht.call hlib hb (bbs j) .tick) ht n (Nat.le_refl n)

theorem Tree.Settled.records_of_resultAt {t : Tree b} (ht : t.Settled m) {bbs : Nat → Blackboard} {n : Nat} {s : Status}
    (hs : t.resultAt m bbs n = .ok s) : m.Records (bbs n) :=
  Tree.records_of_tick hlib hb (ht.ticked hlib hb bbs n) hs

variable {bbs : Nat → Blackboard} {t : Tree b} {lt : LiveTree} (ht : t.Settled m) (h : Mirrors t lt)

include ht h

theorem ticked_mirrors : ∀ n, (∀ j < n, m.Records (bbs j)) →
    Mirrors (t.ticked m bbs n) (lt.ticked m.registries m.config.maxTickDepth bbs n)
  | 0, _ => h
  | n + 1, hrec => (tick_mirrors_of_records hlib hb (ht.ticked hlib hb bbs n)
      (ticked_mirrors n fun j hj => hrec j (Nat.lt_succ_of_lt hj)) (hrec n (Nat.lt_succ_self n))).2

theorem resultAt_mirrors {n : Nat} (hrec : ∀ j ≤ n, m.Records (bbs j)) :
    t.resultAt m bbs n = Checked.ofExcept (lt.resultAt m.registries m.config.maxTickDepth bbs n) :=
  (tick_mirrors_of_records hlib hb (ht.ticked hlib hb bbs n)
    (ticked_mirrors hlib hb ht h n fun j hj => hrec j (Nat.le_of_lt hj)) (hrec n (Nat.le_refl n))).1

theorem unfinished_mirrors {n : Nat} (hrec : ∀ j < n, m.Records (bbs j)) :
    t.Unfinished m bbs n ↔ lt.Unfinished m.registries m.config.maxTickDepth bbs n := by
  refine forall_congr' fun j => forall_congr' fun hj => ?_
  rw [resultAt_mirrors hlib hb ht h fun i hi => hrec i (Nat.lt_of_le_of_lt hi hj), Checked.ofExcept_eq_ok]

end

/-! ## The trees of the children -/

theorem Blueprint.SelfContained.ofLibrary {rs : Registries} {t : Blueprint} (h : t.SelfContained rs)
    (hdraw : b.Draws 0 t) : b.OfLibrary := by
  intro i type htype
  have hi : i < 0 + t.size := by
    rw [Nat.zero_add, hdraw.size]
    exact (Array.getElem?_eq_some_iff.mp (Blob.typeOf_eq_ok_iff.mp htype)).1
  have hchildren : ∀ t : Blueprint, t.SelfContained rs → ∀ c ∈ t.children, c.SelfContained rs := fun t ht => by
    obtain ⟨-, -, hts⟩ := ht
    exact hts
  obtain ⟨t', ht', hdraw'⟩ := hdraw.exists_at hchildren h i (Nat.zero_le i) hi
  rw [hdraw'.type] at htype
  cases htype
  obtain ⟨hmem, -, -⟩ := ht'
  exact hmem

theorem Blueprint.SelfContained.parallel {rs : Registries} {cs : List Blueprint}
    (h : ∀ c ∈ cs, c.SelfContained rs) : (Blueprint.parallel cs).SelfContained rs :=
  .node (by decide) (.of_ne (by decide) rs _) h

theorem Tree.settled_new (m : Machine) (b : Blob) : (Tree.new b).Settled m := ⟨rfl, m.intact_defaults⟩

/-- The blob of the tree of a child, and the tree in the interpreter. -/
structure Kin (kid : Blob) (u : LiveTree) : Prop where
  ofLibrary : kid.OfLibrary
  mirrors : Mirrors (Tree.new kid) u

theorem Kin.of_build {rs : Registries} {c : Blueprint} {kid : Blob} (hself : c.SelfContained rs)
    (hbuild : c.build = .ok kid) : Kin kid (fresh c) :=
  ⟨hself.ofLibrary (Blueprint.build_draws hbuild), mirrors_new (Blueprint.build_draws hbuild)⟩

section

variable (hlib : ∀ x ∈ Library.behaviors, m.behavior? x.1 = some x.2)

include hlib

namespace Kin

variable {kid : Blob} {u : LiveTree} (h : Kin kid u) {bbs : Nat → Blackboard} {n : Nat}

include h

theorem unfinished_iff (hrec : ∀ j < n, m.Records (bbs j)) :
    (Tree.new kid).Unfinished m bbs n ↔ u.Unfinished m.registries m.config.maxTickDepth bbs n :=
  unfinished_mirrors hlib h.ofLibrary (Tree.settled_new m kid) h.mirrors hrec

theorem resultAt_iff (hrec : ∀ j ≤ n, m.Records (bbs j)) (s : Status) : (Tree.new kid).resultAt m bbs n = .ok s ↔
    u.resultAt m.registries m.config.maxTickDepth bbs n = .ok s := by
  rw [resultAt_mirrors hlib h.ofLibrary (Tree.settled_new m kid) h.mirrors hrec, Checked.ofExcept_eq_ok]

end Kin

theorem separable_fresh {kid : Blob} {c : Blueprint} (hdraw : kid.Draws 0 c) (hself : c.SelfContained m.registries)
    (hdepth : 1 + c.height ≤ m.config.maxTickDepth) (bbs : Nat → Blackboard) :
    (fresh c).Separable m.registries m.config.maxTickDepth bbs 1 where
  selfContained := by rw [shape_fresh]; exact hself
  height := by rw [shape_fresh]; exact hdepth
  quiet n s hr hs := by
    have hkid := hself.ofLibrary hdraw
    have hmirror : Mirrors ((Tree.new kid).ticked m.untraced bbs (n + 1))
        ((fresh c).ticked m.registries m.config.maxTickDepth bbs (n + 1)) :=
      ticked_mirrors (m := m.untraced) hlib hkid (Tree.settled_new _ kid) (mirrors_new hdraw) (n + 1)
        fun j _ => m.untraced_records (bbs j)
    have hroot : ¬ ((Tree.new kid).ticked m.untraced bbs (n + 1)).inst.Running 0 := by
      have hstate := state_of_tick hr
      rw [Instance.Running, hmirror.root_eq]
      exact fun hrun => hs (Option.some.inj (hstate.symm.trans hrun))
    have hup := (hkid.typing (m := m.untraced) hlib).upheld
    exact hmirror.quiet_iff.mpr fun i hi =>
      hroot (Typing.root_running (hup.ticked_between Contract.between_new bbs (n + 1)).everywhere i hi)

end

/-! ## Ticks in step -/

/-- A parallel keeps the result `r` of its child number `k`, the node `i`, which has recorded it. -/
def Tree.Keeps (t : Tree b) (k i : Nat) (r : Status) : Prop :=
  b.IsChild 0 k i ∧ t.inst.state i = .ok (some r) ∧ (t.inst.cell 0).bytes[k]? = some r.bits

/-- How tick `n` of a parallel, with result `s`, compares to the ticks of the trees `kids` of its children. -/
structure Tree.InStep (t : Tree b) (m : Machine) (bbs : Nat → Blackboard) (kids : List Blob) (n : Nat) (s : Status) :
    Prop where
  /-- A child that has not completed is ticked to the result of its own tree. -/
  due : ∀ k kid, kids[k]? = some kid → (Tree.new kid).Unfinished m bbs n →
    ∃ i r, (t.ticked m bbs (n + 1)).Keeps k i r ∧ (Tree.new kid).resultAt m bbs n = .ok r
  /-- A child that has completed is not ticked. Its first completed result stays. -/
  done : ∀ k kid, kids[k]? = some kid → ¬ (Tree.new kid).Unfinished m bbs n →
    ∃ i r, (t.ticked m bbs (n + 1)).Keeps k i r ∧
      m.Skips (m.config.maxTickDepth - 1) 0 i ⟨(t.ticked m bbs n).inst.advance, bbs n⟩ ∧
      r ≠ .running ∧ ∃ j < n, (Tree.new kid).Unfinished m bbs j ∧ (Tree.new kid).resultAt m bbs j = .ok r
  running_iff : s = .running ↔ ∃ kid ∈ kids, (Tree.new kid).Unfinished m bbs (n + 1)
  failure_iff : s ≠ .running → (s = .failure ↔ ∃ kid ∈ kids, ∃ j ≤ n, (Tree.new kid).Unfinished m bbs j ∧
    (Tree.new kid).resultAt m bbs j = .ok .failure)
  /-- The tick with which the last child completes leaves nothing running. -/
  rest : s ≠ .running → ∀ i, (t.ticked m bbs (n + 1)).inst.state i ≠ .ok (some .running)

theorem combine_eq_failure {rs : List Status} (h : combine rs ≠ .running) : combine rs = .failure ↔ .failure ∈ rs := by
  have hnot : .running ∉ rs := fun hr => h (combine_eq_running.mpr hr)
  unfold combine
  rw [if_neg hnot]
  split
  · simp [*]
  · simp [*]

section

variable {cs : List Blueprint} {us : List LiveTree} {kids : List Blob} {bbs : Nat → Blackboard} {n : Nat} {t : Tree b}

theorem Mirrors.exists_child {c : Cell} {ts : List LiveTree} {ds : List UInt8}
    (h : Mirrors t (node parallelId ds c ts)) {k : Nat} {u : LiveTree} (hu : ts[k]? = some u) :
    ∃ i, b.IsChild 0 k i ∧ t.inst.cell i = u.cell := by
  obtain ⟨i, hi, hcell⟩ := exists_root [c] hu
  refine ⟨i, ⟨b.size_pos, ?_⟩, (h.cell_eq hcell).2⟩
  rw [h.draws.childList, shape]
  exact hi

variable {xs ys : List (Status × LiveTree)} {ds : List UInt8}

theorem Kin.exists_iff (hkin : List.Forall₂ Kin kids us) {P : Blob → Prop} {Q : LiveTree → Prop}
    (hP : ∀ kid u, Kin kid u → (P kid ↔ Q u)) : (∃ kid ∈ kids, P kid) ↔ ∃ u ∈ us, Q u :=
  (exists_mem_iff_of_forall₂ hkin fun kid u h => (hP kid u h).symm).symm

theorem exists_keeps (hslots : Slots m.registries m.config.maxTickDepth bbs (n + 1) us ys)
    (h : Mirrors t (combined ds ys)) {k : Nat} {u : LiveTree} (hu : us[k]? = some u) :
    ∃ i s v, t.Keeps k i s ∧ Slot m.registries m.config.maxTickDepth bbs (n + 1) u s v := by
  obtain ⟨⟨s, v⟩, hy, hslot⟩ := forall₂_getElem? hslots hu
  obtain ⟨i, hc, hcell⟩ := h.exists_child (u := v) (by rw [List.getElem?_map, hy]; rfl)
  have hi : i < b.size := Nat.lt_of_lt_of_le hc.lt.2.1 (Nat.le_trans hc.lt.2.2 (Blob.stop_le hc.1))
  refine ⟨i, s, v, ⟨hc, ?_, ?_⟩, hslot⟩
  · rw [Instance.state_eq _ hi, hcell, hslot.state]
  · rw [h.root_eq, combined, LiveTree.cell, List.getElem?_map, List.getElem?_map, hy]
    rfl

variable (hlib : ∀ x ∈ Library.behaviors, m.behavior? x.1 = some x.2) (hb : b.OfLibrary)
  (hkin : List.Forall₂ Kin kids us) (hrec : ∀ j ≤ n, m.Records (bbs j))

include hlib hb in
theorem skips_of_underway {c : Cell} (hbetween : (hb.typing hlib).contract.Between t)
    (h : Mirrors t (node parallelId ds c (xs.map (·.2))))
    (hunder : Underway m.registries m.config.maxTickDepth bbs n us ds c xs) {k i : Nat} (hc : b.IsChild 0 k i)
    {u : LiveTree} (hu : us[k]? = some u) (hdone : ¬ u.Unfinished m.registries m.config.maxTickDepth bbs n)
    (bb : Blackboard) : m.Skips (m.config.maxTickDepth - 1) 0 i ⟨t.inst.advance, bb⟩ := by
  obtain ⟨hrun, hbyte⟩ := hunder.byte_ne hu hdone
  have hcell : t.inst.advance.cell 0 = c := h.root_eq
  have hbh := behaviorAt_eq (hb.onlyLibrary hlib) b.size_pos h.draws.type
  refine Typing.skips (k := k) hbh (fun _ _ _ _ => trivial) hc ?_ _ ?_ hbetween.advance
  · rw [hcell]
    exact hbyte
  · rw [Instance.Running, hcell]
    exact hrun

include hlib hb hkin hrec

theorem inStep_of_mirrors {c : Cell} (hbetween : (hb.typing hlib).contract.Between (t.ticked m bbs n))
    (hbefore : Mirrors (t.ticked m bbs n) (node parallelId ds c (xs.map (·.2))))
    (hunder : Underway m.registries m.config.maxTickDepth bbs n us ds c xs)
    (hslots : Slots m.registries m.config.maxTickDepth bbs (n + 1) us ys)
    (hafter : Mirrors (t.ticked m bbs (n + 1)) (combined ds ys)) :
    t.InStep m bbs kids n (combine (ys.map (·.1))) where
  due k kid hkid hdue := by
    obtain ⟨u, hu, hku⟩ := forall₂_getElem? hkin hkid
    obtain ⟨i, s, v, hkeeps, hslot⟩ := exists_keeps hslots hafter hu
    rw [hku.unfinished_iff hlib fun j hj => hrec j (Nat.le_of_lt hj)] at hdue
    exact ⟨i, s, hkeeps, (hku.resultAt_iff hlib hrec s).mpr (hslot.result hdue)⟩
  done k kid hkid hdone := by
    obtain ⟨u, hu, hku⟩ := forall₂_getElem? hkin hkid
    obtain ⟨i, s, v, hkeeps, hslot⟩ := exists_keeps hslots hafter hu
    rw [hku.unfinished_iff hlib fun j hj => hrec j (Nat.le_of_lt hj)] at hdone
    obtain ⟨j, hj, hs, hdue, hr⟩ := hslot.earlier hdone
    have hskips := skips_of_underway hlib hb hbetween hbefore hunder hkeeps.1 hu hdone (bbs n)
    refine ⟨i, s, hkeeps, hskips, hs, j, hj, ?_, ?_⟩
    · exact (hku.unfinished_iff hlib fun i hi => hrec i (Nat.le_of_lt (Nat.lt_trans hi hj))).mpr hdue
    · exact (hku.resultAt_iff hlib (fun i hi => hrec i (Nat.le_trans hi (Nat.le_of_lt hj))) s).mpr hr
  running_iff := by
    rw [combine_eq_running, hslots.running_iff]
    exact (Kin.exists_iff hkin fun kid u h => h.unfinished_iff hlib fun j hj => hrec j (Nat.le_of_lt_succ hj)).symm
  failure_iff hs := by
    rw [combine_eq_failure hs, hslots.failure_iff]
    refine (Kin.exists_iff hkin fun kid u h => ?_).symm
    refine exists_congr fun j => ?_
    rw [Nat.lt_succ_iff]
    refine and_congr_right fun hj => and_congr ?_ ?_
    · exact h.unfinished_iff hlib fun i hi => hrec i (Nat.le_trans (Nat.le_of_lt hi) hj)
    · exact h.resultAt_iff hlib (fun i hi => hrec i (Nat.le_trans hi hj)) _
  rest hs i hrun := by
    have hdone : ¬ ∃ u ∈ us, u.Unfinished m.registries m.config.maxTickDepth bbs (n + 1) := fun hdue =>
      hs (combine_eq_running.mpr (hslots.running_iff.mpr hdue))
    exact hafter.quiet_iff.mp (quiet_combined hslots hdone) i (Instance.running_iff.mpr hrun)

end

/-! ## Activations -/

/-- A parallel on entry to an activation, in the machine and in the interpreter, and new trees of its children. -/
structure Tree.Enters (t : Tree b) (T : Typing b m) (bbs : Nat → Blackboard) (cs : List Blueprint) (kids : List Blob)
    (lt : LiveTree) : Prop where
  settled : t.Settled m
  between : T.contract.Between t
  mirrors : Mirrors t lt
  shape : lt.shape = .parallel cs
  quiet : lt.Quiet
  kin : List.Forall₂ Kin kids (freshAll cs)
  separable : ∀ u ∈ freshAll cs, u.Separable m.registries m.config.maxTickDepth bbs 1

namespace Tree.Enters

variable (hlib : ∀ x ∈ Library.behaviors, m.behavior? x.1 = some x.2) (hb : b.OfLibrary) {cs : List Blueprint}
  {kids : List Blob} {bbs : Nat → Blackboard} {n : Nat} {t : Tree b} {lt : LiveTree}
  (h : t.Enters (hb.typing hlib) bbs cs kids lt)

include hlib hb h

/-- While a child has not completed, a tick that can be recorded ends in step, or it fails like that of such a
child. -/
theorem tick_cases (hactive : ∃ kid ∈ kids, (Tree.new kid).Unfinished m bbs n)
    (hruns : ∀ j < n, ∃ s, t.resultAt m bbs j = .ok s) (hrec : ∀ j ≤ n, m.Records (bbs j)) :
    (∃ s, t.resultAt m bbs n = .ok s ∧ t.InStep m bbs kids n s ∧
      ∀ kid ∈ kids, (Tree.new kid).Unfinished m bbs n → ∃ r, (Tree.new kid).resultAt m bbs n = .ok r) ∨
    (¬ ∃ s, t.resultAt m bbs n = .ok s) ∧
      ∃ kid ∈ kids, (Tree.new kid).Unfinished m bbs n ∧ ¬ ∃ r, (Tree.new kid).resultAt m bbs n = .ok r := by
  have hbefore : ∀ j < n, m.Records (bbs j) := fun j hj => hrec j (Nat.le_of_lt hj)
  have hactive' := (Kin.exists_iff h.kin fun kid u hk => hk.unfinished_iff hlib hbefore).mp hactive
  obtain ⟨c, xs, htree, hunder⟩ := underway_ticked h.shape h.quiet h.separable n hactive' fun j hj => by
    obtain ⟨s, hs⟩ := hruns j hj
    rw [resultAt_mirrors hlib hb h.settled h.mirrors fun i hi => hrec i (Nat.le_trans hi (Nat.le_of_lt hj))] at hs
    exact ⟨s, Checked.ofExcept_eq_ok.mp hs⟩
  have hmirror := ticked_mirrors hlib hb h.settled h.mirrors n hbefore
  rw [htree] at hmirror
  obtain ⟨hanswer, hnext⟩ := tick_mirrors_of_records hlib hb (h.settled.ticked hlib hb bbs n) hmirror
    (hrec n (Nat.le_refl n))
  rcases hunder.tick h.separable hactive' with ⟨ys, hys, hans, hpart⟩ | ⟨⟨e, herr⟩, u, hu, hdue, e', he'⟩
  · rw [hans, Checked.ofExcept_ok] at hanswer
    rw [hpart] at hnext
    have hbetween := (hb.typing hlib).upheld.ticked_between h.between bbs n
    refine .inl ⟨_, hanswer, inStep_of_mirrors hlib hb h.kin hrec hbetween hmirror hunder hys hnext,
      fun kid hkid hdue => ?_⟩
    obtain ⟨k, hk⟩ := List.getElem?_of_mem hkid
    obtain ⟨u, hu, hku⟩ := forall₂_getElem? h.kin hk
    obtain ⟨y, -, hslot⟩ := forall₂_getElem? hys hu
    rw [hku.unfinished_iff hlib hbefore] at hdue
    exact ⟨y.1, (hku.resultAt_iff hlib hrec y.1).mpr (hslot.result hdue)⟩
  · refine .inr ⟨fun ⟨s, hs⟩ => ?_, (Kin.exists_iff h.kin fun kid u hk => and_congr (hk.unfinished_iff hlib hbefore)
      (not_congr (exists_congr fun s => hk.resultAt_iff hlib hrec s))).mpr ⟨u, hu, hdue, fun ⟨s, hs⟩ => ?_⟩⟩
    · rw [herr] at hanswer
      cases hanswer.symm.trans hs
    · cases he'.symm.trans hs

/-- One tick of an activation. It fails exactly if that of a child does which has not completed. -/
theorem tick_inStep (hactive : ∃ kid ∈ kids, (Tree.new kid).Unfinished m bbs n)
    (hruns : ∀ j < n, ∃ s, t.resultAt m bbs j = .ok s) :
    ((∃ s, t.resultAt m bbs n = .ok s) ↔ ∀ kid ∈ kids, (Tree.new kid).Unfinished m bbs n →
      ∃ s, (Tree.new kid).resultAt m bbs n = .ok s) ∧
    ∀ s, t.resultAt m bbs n = .ok s → t.InStep m bbs kids n s := by
  -- Every event before has been recorded, so the next one decides which case it is.
  have hcases := fun hn : m.Records (bbs n) => tick_cases hlib hb h hactive hruns fun j hj => by
    rcases Nat.lt_or_eq_of_le hj with hlt | rfl
    · obtain ⟨s, hs⟩ := hruns j hlt
      exact h.settled.records_of_resultAt hlib hb hs
    · exact hn
  have hok : ∀ s, t.resultAt m bbs n = .ok s → t.InStep m bbs kids n s ∧
      ∀ kid ∈ kids, (Tree.new kid).Unfinished m bbs n → ∃ r, (Tree.new kid).resultAt m bbs n = .ok r := by
    intro s hs
    rcases hcases (h.settled.records_of_resultAt hlib hb hs) with ⟨s', hs', hstep⟩ | ⟨hfails, -⟩
    · cases hs'.symm.trans hs
      exact hstep
    · exact absurd ⟨s, hs⟩ hfails
  refine ⟨⟨fun ⟨s, hs⟩ => (hok s hs).2, fun hkids => ?_⟩, fun s hs => (hok s hs).1⟩
  obtain ⟨kid, hkid, hdue⟩ := hactive
  obtain ⟨r, hr⟩ := hkids kid hkid hdue
  obtain ⟨k, hk⟩ := List.getElem?_of_mem hkid
  obtain ⟨u, -, hku⟩ := forall₂_getElem? h.kin hk
  rcases hcases ((Tree.settled_new m kid).records_of_resultAt hlib hku.ofLibrary hr) with ⟨s, hs, -⟩ | ⟨-, hfails⟩
  · exact ⟨s, hs⟩
  · obtain ⟨kid', hkid', hdue', hnot⟩ := hfails
    exact absurd (hkids kid' hkid' hdue') hnot

/-- While the parallel has only returned `running`, a child has not completed. -/
theorem active (hne : kids ≠ []) (hun : t.Unfinished m bbs n) : ∃ kid ∈ kids, (Tree.new kid).Unfinished m bbs n := by
  induction n with
  | zero =>
      obtain ⟨kid, hkid⟩ := List.exists_mem_of_ne_nil kids hne
      exact ⟨kid, hkid, fun j hj => absurd hj (Nat.not_lt_zero j)⟩
  | succ n ih =>
      have hactive := ih fun j hj => hun j (Nat.lt_succ_of_lt hj)
      have htick := tick_inStep hlib hb h hactive fun j hj => ⟨_, hun j (Nat.lt_succ_of_lt hj)⟩
      exact ((htick.2 _ (hun n (Nat.lt_succ_self n))).running_iff).mp rfl

end Tree.Enters

/-- A tree of which only the root was ticked by its host, and where the next tick of the root activates it. -/
def Tree.AtEntry (t : Tree b) (m : Machine) : Prop :=
  (∃ acts : List (Act × Blackboard), (∀ x ∈ acts, x.1.TicksRoot) ∧ t = (Tree.new b).after m acts) ∧
    t.inst.state 0 ≠ .ok (some .running)

theorem Tree.AtEntry.ticked {t : Tree b} (h : t.AtEntry m) (bbs : Nat → Blackboard) (n : Nat)
    (hroot : (t.ticked m bbs n).inst.state 0 ≠ .ok (some .running)) : (t.ticked m bbs n).AtEntry m := by
  obtain ⟨⟨acts, hacts, rfl⟩, -⟩ := h
  refine ⟨⟨acts ++ (List.range n).map fun j => (.tick, bbs j), fun x hx => ?_, ?_⟩, hroot⟩
  · rcases List.mem_append.mp hx with hx | hx
    · exact hacts x hx
    · obtain ⟨j, -, rfl⟩ := List.mem_map.mp hx
      trivial
  · rw [Tree.ticked_eq_after, Tree.after_append]

theorem exists_kids {cs : List Blueprint} : ∀ {i : Nat}, b.DrawsAll i cs →
    ∃ kids : List Blob, List.Forall₂ (fun c kid => c.build = .ok kid) cs kids := by
  induction cs with
  | nil => exact fun _ => ⟨[], .nil⟩
  | cons c cs ih =>
      rintro i ⟨hc, hcs⟩
      have hsize : c.size < UInt32.size := by
        have hle := Blob.stop_le hc.lt
        rw [hc.stop] at hle
        exact Nat.lt_of_le_of_lt (Nat.le_trans (Nat.le_add_left _ _) hle) b.size_lt
      obtain ⟨kid, hkid⟩ := Blueprint.build_eq_ok_iff.mpr ⟨hsize, (hc.fits (Nat.zero_le _)).1⟩
      obtain ⟨kids, hkids⟩ := ih hcs
      exact ⟨kid :: kids, .cons hkid hkids⟩

/-- The trees of the children are new trees of the interpreter, and none of them leaves a node running. -/
theorem kin_fresh (hlib : ∀ x ∈ Library.behaviors, m.behavior? x.1 = some x.2) {cs : List Blueprint}
    {kids : List Blob} (hkids : List.Forall₂ (fun c kid => c.build = .ok kid) cs kids)
    (hcs : ∀ c ∈ cs, c.SelfContained m.registries) (hdepth : ∀ c ∈ cs, 1 + c.height ≤ m.config.maxTickDepth)
    (bbs : Nat → Blackboard) : List.Forall₂ Kin kids (freshAll cs) ∧
      ∀ u ∈ freshAll cs, u.Separable m.registries m.config.maxTickDepth bbs 1 := by
  induction hkids with
  | nil => exact ⟨.nil, fun u hu => absurd hu List.not_mem_nil⟩
  | @cons c kid cs kids hkid _ ih =>
      rw [List.forall_mem_cons] at hcs hdepth
      obtain ⟨hkin, hsep⟩ := ih hcs.2 hdepth.2
      rw [freshAll, List.forall_mem_cons]
      exact ⟨.cons (.of_build hcs.1 hkid) hkin,
        separable_fresh hlib (Blueprint.build_draws hkid) hcs.1 hdepth.1 bbs, hsep⟩

theorem Tree.AtEntry.new : (Tree.new b).AtEntry m := by
  refine ⟨⟨[], fun x hx => absurd hx List.not_mem_nil, rfl⟩, ?_⟩
  rw [Tree.new, Instance.state_eq _ b.size_pos, Instance.cell_new b.size_pos]
  intro h
  cases h

/-- A parallel runs its children as trees of their own: in any activation, as long as it has not completed, its
next tick fails exactly if that of the tree of a child does which has not completed, and goes in step with
these trees otherwise. After the tick with which it completes, the next one starts an activation again. -/
theorem parallel_runs_children (hlib : ∀ x ∈ Library.behaviors, m.behavior? x.1 = some x.2) {cs : List Blueprint}
    (hne : cs ≠ []) (hcs : ∀ c ∈ cs, c.SelfContained m.registries)
    (hdepth : (Blueprint.parallel cs).height ≤ m.config.maxTickDepth) (hbuild : (Blueprint.parallel cs).build = .ok b) :
    (Tree.new b).AtEntry m ∧ ∃ kids : List Blob, List.Forall₂ (fun c kid => c.build = .ok kid) cs kids ∧
      ∀ (t : Tree b), t.AtEntry m → ∀ (bbs : Nat → Blackboard) (n : Nat), t.Unfinished m bbs n →
        ((∃ s, t.resultAt m bbs n = .ok s) ↔ ∀ kid ∈ kids, (Tree.new kid).Unfinished m bbs n →
          ∃ s, (Tree.new kid).resultAt m bbs n = .ok s) ∧
        ∀ s, t.resultAt m bbs n = .ok s →
          t.InStep m bbs kids n s ∧ (s ≠ .running → (t.ticked m bbs (n + 1)).AtEntry m) := by
  have hdraw := Blueprint.build_draws hbuild
  have hb : b.OfLibrary := (Blueprint.SelfContained.parallel hcs).ofLibrary hdraw
  have hheight : ∀ c ∈ cs, 1 + c.height ≤ m.config.maxTickDepth := fun c hc => by
    have hle := Blueprint.height_le_heightAll hc
    rw [Blueprint.parallel, Blueprint.height] at hdepth
    omega
  obtain ⟨kids, hkids⟩ := exists_kids hdraw.2.2.2.2
  have hkidsne : kids ≠ [] := fun h => hne (List.forall₂_nil_right_iff.mp (h ▸ hkids))
  refine ⟨.new, kids, hkids, fun t ht bbs n hun => ?_⟩
  obtain ⟨hkin, hsep⟩ := kin_fresh hlib hkids hcs hheight bbs
  obtain ⟨⟨acts, hacts, hafter⟩, hroot⟩ := id ht
  have hbetween : (hb.typing hlib).contract.Between t :=
    hafter ▸ (hb.typing hlib).upheld.after_between acts hacts Contract.between_new
  obtain ⟨lt, hshape, hmirror⟩ := Mirrors.exists_of_draws hdraw hbetween.depth
  have henters : t.Enters (hb.typing hlib) bbs cs kids lt :=
    { settled := hafter ▸ Tree.settled_after hlib hb acts
      between := hbetween
      mirrors := hmirror
      shape := hshape
      quiet := hmirror.quiet_iff.mpr fun i hi =>
        hroot (Instance.running_iff.mp (Typing.root_running hbetween.everywhere i hi))
      kin := hkin
      separable := hsep }
  have htick := henters.tick_inStep hlib hb (henters.active hlib hb hkidsne hun) fun j hj => ⟨_, hun j hj⟩
  refine ⟨htick.1, fun s hs => ⟨htick.2 s hs, fun hdone => ht.ticked bbs (n + 1) ?_⟩⟩
  exact (htick.2 s hs).rest hdone 0

/-- A node that fails, and one that succeeds with its second tick. -/
def lateSuccess : List Blueprint := [.fixed .failure, .repetition 2 0 (.fixed .success)]

def Blob.lateSuccess : Blob :=
  ⟨⟨#[parallelId, fixedId, repetitionId, fixedId], #[4, 2, 4, 4], #[0, 8, 16, 32], #[2, 1, 12, 1],
    #[0x0404, 2, 2, 0, 1]⟩, by decide⟩

theorem parallel_runs_children_lateSuccess :
    let t := Tree.new Blob.lateSuccess
    let bbs := fun _ => Blackboard.empty
    (Blueprint.parallel lateSuccess).build = .ok .lateSuccess ∧
      t.resultAt .ofLibrary bbs 0 = .ok .running ∧ t.resultAt .ofLibrary bbs 1 = .ok .failure ∧
        ∃ kids : List Blob, List.Forall₂ (fun c kid => c.build = .ok kid) lateSuccess kids ∧
          t.InStep .ofLibrary bbs kids 1 .failure ∧ (t.ticked .ofLibrary bbs 2).AtEntry .ofLibrary := by
  intro t bbs
  have hbuild : (Blueprint.parallel lateSuccess).build = .ok .lateSuccess := by decide +kernel
  have hfixed (s : Status) : (Blueprint.fixed s).SelfContained (Machine.ofLibrary.registries) :=
    .node (by decide) (.of_ne (by decide) _ _) fun _ h => absurd h List.not_mem_nil
  have hcs : ∀ c ∈ lateSuccess, c.SelfContained Machine.ofLibrary.registries := by
    rw [lateSuccess, List.forall_mem_cons, List.forall_mem_singleton]
    exact ⟨hfixed _, .node (by decide) (.of_ne (by decide) _ _) (List.forall_mem_singleton.mpr (hfixed _))⟩
  have hrunning : t.resultAt .ofLibrary bbs 0 = .ok .running := by decide +kernel
  have hfailure : t.resultAt .ofLibrary bbs 1 = .ok .failure := by decide +kernel
  obtain ⟨hnew, kids, hkids, h⟩ := parallel_runs_children Machine.HasLibrary.ofLibrary.behaviors (List.cons_ne_nil _ _)
    hcs (by decide +kernel) hbuild
  obtain ⟨hstep, hentry⟩ := (h t hnew bbs 1 fun j hj => Nat.lt_one_iff.mp hj ▸ hrunning).2 .failure hfailure
  exact ⟨hbuild, hrunning, hfailure, kids, hkids, hstep, hentry (by decide)⟩

end BehaviorTree
