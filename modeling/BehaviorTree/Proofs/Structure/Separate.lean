import BehaviorTree.Proofs.Structure.Relocation

/-!
# The children of a parallel run on their own

From one activation of a parallel to the next, each of its children goes through the ticks of a tree of its
own, until its first completed result. That result stays in the slot of the child, which is passed over from
then on.
-/

namespace BehaviorTree

open Library

namespace LiveTree

section Runs

variable (rs : Registries) (limit : Nat) (bbs : Nat → Blackboard)

/-- The tree after `n` ticks, with a blackboard for each. -/
def ticked (t : LiveTree) : Nat → LiveTree
  | 0 => t
  | n + 1 => ((ticked t n).tick rs limit 0 .top (bbs n)).part

/-- How tick `n` ends, counted from 0. -/
def resultAt (t : LiveTree) (n : Nat) : Except Error Status :=
  ((t.ticked rs limit bbs n).tick rs limit 0 .top (bbs n)).answer

/-- None of the first `n` ticks completed. -/
def Unfinished (t : LiveTree) (n : Nat) : Prop := ∀ j < n, t.resultAt rs limit bbs j = .ok .running

/-- Where a child of a parallel with the result `s` in its slot stands after `n` ticks, compared to the same
tree on its own: as far as this, or done with its first completed result. -/
inductive Slot (n : Nat) (u : LiveTree) : Status → LiveTree → Prop
  | due {t : LiveTree} : u.Unfinished rs limit bbs n → Alike rs t (u.ticked rs limit bbs n) → Slot n u .running t
  | done {t : LiveTree} {j : Nat} {s : Status} : j < n → u.Unfinished rs limit bbs j →
      u.resultAt rs limit bbs j = .ok s → s ≠ .running → t.Quiet → t.cell.state = some s → Slot n u s t

/-- A tree that may be a child of a parallel below `depth - 1` others: it reads no data of other nodes, there
is room for it, and once it has completed a tick none of its nodes is running. -/
structure Separable (depth : Nat) (u : LiveTree) : Prop where
  selfContained : u.shape.SelfContained rs
  height : depth + u.shape.height ≤ limit
  quiet : ∀ n s, u.resultAt rs limit bbs n = .ok s → s ≠ .running → (u.ticked rs limit bbs (n + 1)).Quiet

end Runs

variable {rs : Registries} {limit depth n : Nat} {bbs : Nat → Blackboard} {t u : LiveTree} {s : Status}

theorem shape_ticked (t : LiveTree) : ∀ n, (t.ticked rs limit bbs n).shape = t.shape
  | 0 => rfl
  | n + 1 => (shape_tick ..).trans (shape_ticked t n)

theorem Unfinished.mono {j : Nat} (h : u.Unfinished rs limit bbs n) (hj : j ≤ n) : u.Unfinished rs limit bbs j :=
  fun i hi => h i (Nat.lt_of_lt_of_le hi hj)

theorem unfinished_succ : u.Unfinished rs limit bbs (n + 1) ↔
    u.Unfinished rs limit bbs n ∧ u.resultAt rs limit bbs n = .ok .running :=
  ⟨fun h => ⟨h.mono (Nat.le_succ n), h n (Nat.lt_succ_self n)⟩, fun h j hj =>
    (Nat.lt_succ_iff_lt_or_eq.mp hj).elim (h.1 j) fun he => he ▸ h.2⟩

namespace Slot

theorem due_iff (h : Slot rs limit bbs n u s t) : u.Unfinished rs limit bbs n ↔ s = .running := by
  cases h with
  | due hdue _ => simp [hdue]
  | done hj _ hr hs _ _ =>
      refine ⟨fun hdue => ?_, fun h => absurd h hs⟩
      rw [hdue _ hj] at hr
      cases hr
      rfl

/-- The slot of a child that is done holds the first result but `running`. -/
theorem eq_iff (h : Slot rs limit bbs n u s t) {r : Status} (hr : r ≠ .running) :
    s = r ↔ ∃ j < n, u.Unfinished rs limit bbs j ∧ u.resultAt rs limit bbs j = .ok r := by
  cases h with
  | due hdue _ =>
      refine ⟨fun he => absurd he.symm hr, fun ⟨j, hj, _, hrj⟩ => ?_⟩
      rw [hdue j hj] at hrj
      exact Except.ok.inj hrj
  | @done _ i s hi hdue hs hne _ _ =>
      constructor
      · rintro rfl
        exact ⟨i, hi, hdue, hs⟩
      · rintro ⟨j, _, hduej, hrj⟩
        rcases Nat.lt_trichotomy j i with hlt | rfl | hlt
        · rw [hdue j hlt] at hrj
          exact absurd (Except.ok.inj hrj).symm hr
        · rw [hs] at hrj
          exact Except.ok.inj hrj
        · rw [hduej i hlt] at hs
          exact absurd (Except.ok.inj hs).symm hne

/-- The slot of a child that was due holds the result of its latest tick. -/
theorem result (h : Slot rs limit bbs (n + 1) u s t) (hdue : u.Unfinished rs limit bbs n) :
    u.resultAt rs limit bbs n = .ok s := by
  cases h with
  | due hdue' _ => exact hdue' n (Nat.lt_succ_self n)
  | done hj _ hr hs _ _ =>
      rcases Nat.lt_succ_iff_lt_or_eq.mp hj with hlt | rfl
      · rw [hdue _ hlt] at hr
        cases hr
        exact absurd rfl hs
      · exact hr

/-- The slot of a child that was not due holds the result with which it completed before. -/
theorem earlier (h : Slot rs limit bbs (n + 1) u s t) (hdone : ¬ u.Unfinished rs limit bbs n) :
    ∃ j < n, s ≠ .running ∧ u.Unfinished rs limit bbs j ∧ u.resultAt rs limit bbs j = .ok s := by
  cases h with
  | due hdue _ => exact absurd (hdue.mono (Nat.le_succ n)) hdone
  | @done _ j _ hj hdue hr hs _ _ =>
      refine ⟨j, Nat.lt_of_le_of_ne (Nat.le_of_lt_succ hj) fun he => hdone (he ▸ hdue), hs, hdue, hr⟩

/-- A child records what is in its slot. -/
theorem state (h : Slot rs limit bbs (n + 1) u s t) : t.cell.state = some s := by
  cases h with
  | due hdue halike => exact halike.running_iff.mp (state_of_tick (hdue n (Nat.lt_succ_self n)))
  | done _ _ _ _ _ hstate => exact hstate

theorem quiet (h : Slot rs limit bbs n u s t) (hs : s ≠ .running) : t.Quiet := by
  cases h with
  | due => exact absurd rfl hs
  | done _ _ _ _ hq _ => exact hq

/-- A tick of a child that is due, in its place and on its own. -/
theorem step (cx : Context) (hu : u.Separable rs limit bbs depth) (hdue : u.Unfinished rs limit bbs n)
    (halike : Alike rs t (u.ticked rs limit bbs n)) :
    let o := t.tick rs limit depth cx (bbs n)
    o.board = bbs n ∧ ((∃ s, o.answer = .ok s ∧ Slot rs limit bbs (n + 1) u s o.part) ∨
      (∃ e, o.answer = .error e) ∧ ∃ e, u.resultAt rs limit bbs n = .error e) := by
  intro o
  obtain ⟨hself, hdepth, hquiet⟩ := hu
  have hshape : (u.ticked rs limit bbs n).shape = u.shape := shape_ticked u n
  have hself : (u.ticked rs limit bbs n).shape.SelfContained rs := by rw [hshape]; exact hself
  have hdepth : depth + (u.ticked rs limit bbs n).shape.height ≤ limit := by rw [hshape]; exact hdepth
  obtain ⟨hboard, hcases⟩ := tick_apart halike hself hdepth cx (bbs n)
  refine ⟨hboard, hcases.imp_left ?_⟩
  rintro ⟨s, ho, hu, hpart⟩
  refine ⟨s, ho, ?_⟩
  by_cases hs : s = .running
  · subst hs
    exact .due (unfinished_succ.mpr ⟨hdue, hu⟩) hpart
  · exact .done (Nat.lt_succ_self n) hdue hu hs (Alike.quiet _ hpart (hquiet n s hu hs)) (state_of_tick ho)

end Slot

/-! ## All slots -/

/-- The slots of all children, each with what is in it and with the child in its place. -/
abbrev Slots (rs : Registries) (limit : Nat) (bbs : Nat → Blackboard) (n : Nat) (us : List LiveTree)
    (xs : List (Status × LiveTree)) : Prop :=
  List.Forall₂ (fun u x => Slot rs limit bbs n u x.1 x.2) us xs

theorem exists_mem_iff_of_forall₂ {α β : Type} {R : α → β → Prop} {P : α → Prop} {Q : β → Prop} {as : List α}
    {bs : List β} (h : List.Forall₂ R as bs) (hR : ∀ a b, R a b → (Q b ↔ P a)) :
    (∃ b ∈ bs, Q b) ↔ ∃ a ∈ as, P a := by
  induction h with
  | nil => simp
  | cons hab _ ih => simp [hR _ _ hab, ih]

theorem forall₂_getElem? {α β : Type} {R : α → β → Prop} {as : List α} {bs : List β} (h : List.Forall₂ R as bs) :
    ∀ {k : Nat} {a : α}, as[k]? = some a → ∃ b, bs[k]? = some b ∧ R a b := by
  induction h with
  | nil => exact fun hk => by cases hk
  | cons hab _ ih =>
      intro k a hk
      cases k with
      | zero =>
          cases hk
          exact ⟨_, rfl, hab⟩
      | succ k => exact ih hk

theorem Slots.running_iff {us : List LiveTree} {xs : List (Status × LiveTree)} (h : Slots rs limit bbs n us xs) :
    .running ∈ xs.map (·.1) ↔ ∃ u ∈ us, u.Unfinished rs limit bbs n := by
  rw [List.mem_map, ← exists_mem_iff_of_forall₂ h fun u x hslot => hslot.due_iff.symm]

theorem Slots.failure_iff {us : List LiveTree} {xs : List (Status × LiveTree)} (h : Slots rs limit bbs n us xs) :
    .failure ∈ xs.map (·.1) ↔
      ∃ u ∈ us, ∃ j < n, u.Unfinished rs limit bbs j ∧ u.resultAt rs limit bbs j = .ok .failure := by
  rw [List.mem_map, ← exists_mem_iff_of_forall₂ h fun u x hslot => hslot.eq_iff (r := .failure) (by decide)]

theorem Slots.quiet {us : List LiveTree} {xs : List (Status × LiveTree)} (h : Slots rs limit bbs n us xs) :
    ∀ x ∈ xs, x.1 ≠ .running → x.2.Quiet := by
  induction h with
  | nil => exact fun _ hx => absurd hx List.not_mem_nil
  | cons hslot _ ih => exact List.forall_mem_cons.mpr ⟨hslot.quiet, ih⟩

/-! ## A tick of the parallel -/

/-- Tick `n` of all children that are due: it ends as `f` says, with slots that hold for the next tick, or it
fails, and so does one of these children on its own. -/
def Lockstep {α τ : Type} (rs : Registries) (limit : Nat) (bbs : Nat → Blackboard) (n : Nat) (us : List LiveTree)
    (f : List (Status × LiveTree) → α × τ) (o : Turn α τ) : Prop :=
  (∃ ys, Slots rs limit bbs (n + 1) us ys ∧ o.answer = .ok (f ys).1 ∧ o.part = (f ys).2) ∨
    (∃ e, o.answer = .error e) ∧ ∃ u ∈ us, u.Unfinished rs limit bbs n ∧ ∃ e, u.resultAt rs limit bbs n = .error e

theorem Lockstep.cons {us : List LiveTree} {c : Cell} {pre : List Status}
    {o : Turn (List Status) (Cell × List LiveTree)} (hslot : Slot rs limit bbs (n + 1) u s t)
    (h : Lockstep rs limit bbs n us (fun ys => (ys.map (·.1),
      (({ c with bytes := (pre ++ [s] ++ ys.map (·.1)).map Status.bits } : Cell), ys.map (·.2)))) o) :
    Lockstep rs limit bbs n (u :: us) (fun ys => (ys.map (·.1),
      (({ c with bytes := (pre ++ ys.map (·.1)).map Status.bits } : Cell), ys.map (·.2))))
      ⟨o.answer.map (s :: ·), (o.part.1, t :: o.part.2), o.board⟩ := by
  rcases h with ⟨ys, hys, hans, hpart⟩ | ⟨⟨e, hans⟩, v, hv, hfail⟩
  · refine .inl ⟨(s, t) :: ys, .cons hslot hys, ?_, ?_⟩
    · rw [hans]
      rfl
    · rw [hpart]
      simp
  · refine .inr ⟨⟨e, ?_⟩, v, List.mem_cons_of_mem _ hv, hfail⟩
    rw [hans]
    rfl

/-- One more tick of all children that are due. The results before those in `xs` are `pre`. -/
theorem tickSlots_lockstep {us : List LiveTree} {xs : List (Status × LiveTree)} (h : Slots rs limit bbs n us xs) :
    (∀ u ∈ us, u.Separable rs limit bbs depth) → ∀ cx c done (pre : List Status),
      c.bytes = (pre ++ xs.map (·.1)).map Status.bits →
      Lockstep rs limit bbs n us (fun ys => (ys.map (·.1),
        (({ c with bytes := (pre ++ ys.map (·.1)).map Status.bits } : Cell), ys.map (·.2))))
        (tickSlots rs limit depth cx c done pre.length (bbs n) (xs.map (·.2))) := by
  induction h with
  | nil =>
      intro _ cx c done pre hc
      rw [List.map_nil] at hc ⊢
      refine .inl ⟨[], .nil, ?_⟩
      simp only [tickSlots, List.map_nil, ← hc, and_self]
  | @cons u x us xs hslot hslots ih =>
      intro hus cx c done pre hc
      rw [List.forall_mem_cons] at hus
      obtain ⟨s, t⟩ := x
      rw [List.map_cons] at hc
      have hbyte : c.status cx.index pre.length = .ok s := Cell.status_eq_ok.mpr (by rw [hc]; simp)
      have hnext : ∀ s' : Status, pre.length + 1 = (pre ++ [s']).length := fun _ => by simp
      rw [List.map_cons, tickSlots, hbyte]
      cases hslot with
      | due hdue halike =>
          obtain ⟨hboard, hstep⟩ := Slot.step (cx.focus (c :: done) (cellsAll (xs.map (·.2)))) hus.1 hdue halike
          generalize t.tick rs limit depth (cx.focus (c :: done) (cellsAll (xs.map (·.2)))) (bbs n) = p at hboard hstep
          simp only [Status.isRunning, ↓reduceIte]
          rcases hstep with ⟨s, hans, hslot⟩ | ⟨⟨e, hans⟩, hu⟩
          · have hset : ({ c with bytes := c.bytes.set pre.length s.bits } : Cell).bytes =
                (pre ++ [s] ++ xs.map (·.1)).map Status.bits := by
              rw [hc]
              simp
            simp only [hans, hboard, hnext s]
            exact .cons hslot (ih hus.2 cx _ (done ++ p.part.cells) (pre ++ [s]) hset)
          · simp only [hans]
            exact .inr ⟨⟨e, rfl⟩, u, List.mem_cons_self, hdue, hu⟩
      | @done _ j _ hj hdue hr hs hq hstate =>
          have hrun : s.isRunning = false := by
            cases s with
            | running => exact absurd rfl hs
            | _ => rfl
          simp only [hrun, Bool.false_eq_true, ↓reduceIte, hnext s]
          exact .cons (.done (Nat.lt_succ_of_lt hj) hdue hr hs hq hstate)
            (ih hus.2 cx c (done ++ t.cells) (pre ++ [s]) (by rw [hc]; simp))

theorem statuses_eq_ok {c : Cell} {i : Nat} : ∀ (ss pre : List Status), c.bytes = (pre ++ ss).map Status.bits →
    c.statuses i (List.range' pre.length ss.length) = .ok ss
  | [], _, _ => rfl
  | s :: ss, pre, hc => by
      have hs : c.status i pre.length = .ok s := Cell.status_eq_ok.mpr (by rw [hc]; simp)
      have hss := statuses_eq_ok (c := c) (i := i) ss (pre ++ [s]) (by rw [hc]; simp)
      rw [List.length_append] at hss
      rw [List.length_cons, List.range'_succ, Cell.statuses, hs]
      change (c.statuses i (List.range' (pre.length + [s].length) ss.length) >>= fun rest => _) = _
      rw [hss]
      rfl

/-- A parallel on entry to tick `n` of an activation, its children compared to trees on their own. -/
structure Underway (rs : Registries) (limit : Nat) (bbs : Nat → Blackboard) (n : Nat) (us : List LiveTree)
    (defaults : List UInt8) (c : Cell) (xs : List (Status × LiveTree)) : Prop where
  bytes : (NodeKind.parallel.activate defaults c).bytes = (xs.map (·.1)).map Status.bits
  running : 0 < n → c.state = some .running
  slots : Slots rs limit bbs n us xs

variable {us : List LiveTree} {defaults : List UInt8} {c : Cell} {xs : List (Status × LiveTree)}

/-- What a tick makes of a parallel: it keeps the results of all slots, and records what they combine to. -/
def combined (defaults : List UInt8) (ys : List (Status × LiveTree)) : LiveTree :=
  node parallelId defaults ⟨some (combine (ys.map (·.1))), (ys.map (·.1)).map Status.bits⟩ (ys.map (·.2))

/-- While a child is due, the parallel ticks those that are, and its result combines the results in all slots. -/
theorem Underway.tick (h : Underway rs limit bbs n us defaults c xs)
    (hus : ∀ u ∈ us, u.Separable rs limit bbs 1) (hactive : ∃ u ∈ us, u.Unfinished rs limit bbs n) :
    Lockstep rs limit bbs n us (fun ys => (combine (ys.map (·.1)), combined defaults ys))
      ((node parallelId defaults c (xs.map (·.2))).tick rs limit 0 .top (bbs n)) := by
  have hroom : ¬ limit ≤ 0 := by
    obtain ⟨u, hu, -⟩ := hactive
    have := (hus u hu).height
    omega
  have hkind : NodeKind.ofType? parallelId = some .parallel := rfl
  have hrunning := h.slots.running_iff.mpr hactive
  have hlength : (xs.map (·.1)).length = (xs.map (·.2)).length := by simp
  have hstatuses := statuses_eq_ok (i := Context.top.index) (xs.map (·.1)) [] h.bytes
  rw [hlength, List.length_nil, ← List.range_eq_range'] at hstatuses
  have hpass := tickSlots_lockstep h.slots hus .top (NodeKind.parallel.activate defaults c) [] [] h.bytes
  rw [List.length_nil] at hpass
  simp only [LiveTree.tick, hkind, hroom, ↓reduceIte, hstatuses, hrunning, Nat.zero_add]
  generalize tickSlots rs limit 1 .top (NodeKind.parallel.activate defaults c) [] 0 (bbs n) (xs.map (·.2)) = p
    at hpass ⊢
  obtain ⟨answer, part, board⟩ := p
  rcases hpass with ⟨ys, hys, rfl, rfl⟩ | ⟨⟨e, rfl⟩, hfail⟩
  · exact .inl ⟨ys, hys, rfl, rfl⟩
  · exact .inr ⟨⟨e, rfl⟩, hfail⟩

/-- An activation that goes on. -/
theorem Underway.next (h : Slots rs limit bbs n us xs) (hactive : ∃ u ∈ us, u.Unfinished rs limit bbs n) :
    Underway rs limit bbs n us defaults ⟨some (combine (xs.map (·.1))), (xs.map (·.1)).map Status.bits⟩ xs := by
  have hrunning := combine_eq_running.mpr (h.running_iff.mpr hactive)
  refine ⟨?_, fun _ => congrArg some hrunning, h⟩
  rw [hrunning]
  rfl

/-- In an activation that goes on, the byte of a child that has completed is not `running`. -/
theorem Underway.byte_ne (h : Underway rs limit bbs n us defaults c xs)
    {k : Nat} (hu : us[k]? = some u) (hdone : ¬ u.Unfinished rs limit bbs n) :
    c.state = some .running ∧ c.bytes[k]? ≠ some Status.running.bits := by
  have hpos : 0 < n := Nat.pos_of_ne_zero fun hn => hdone fun j hj => absurd hj (by omega)
  have hrun := h.running hpos
  have hbytes := h.bytes
  rw [NodeKind.activate, if_pos hrun] at hbytes
  obtain ⟨⟨s, v⟩, hx, hslot⟩ := forall₂_getElem? h.slots hu
  refine ⟨hrun, fun hbyte => hdone (hslot.due_iff.mpr ?_)⟩
  rw [hbytes, List.getElem?_map, List.getElem?_map, hx] at hbyte
  exact Status.bits_injective (Option.some.inj hbyte)

/-! ## Activations -/

/-- The default data of a parallel with these children. -/
def slotDefaults (cs : List Blueprint) : List UInt8 := List.replicate cs.length Status.running.bits

/-- An activation starts with all children due. -/
theorem Underway.start {cs : List Blueprint} (hshape : t.shape = .parallel cs) (hq : t.Quiet) :
    ∃ c xs, t = node parallelId (slotDefaults cs) c (xs.map (·.2)) ∧
      Underway rs limit bbs 0 (freshAll cs) (slotDefaults cs) c xs := by
  obtain ⟨type, ds, c, ts⟩ := t
  rw [shape, Blueprint.parallel, Blueprint.node.injEq] at hshape
  obtain ⟨rfl, rfl, rfl⟩ := hshape
  rw [quiet_node] at hq
  refine ⟨c, ts.map (Status.running, ·), ?_, ?_, ?_, ?_⟩
  · rw [slotDefaults, List.map_map, show Prod.snd ∘ (Status.running, ·) = (id : LiveTree → LiveTree) from rfl,
      List.map_id]
  · have hall : (ts.map (Status.running, ·)).map (·.1) = List.replicate ts.length .running := by
      simp [Function.comp_def]
    rw [hall, List.map_replicate, NodeKind.activate, if_neg hq.1, NodeKind.reset, slotDefaults, length_shapeAll,
      List.length_replicate]
  · exact fun h => absurd h (Nat.lt_irrefl 0)
  · rw [Slots, List.forall₂_map_right_iff]
    refine forall₂_of_shapes (by rw [shapeAll_freshAll]) fun u hu t ht h => .due (fun j hj => by omega) ?_
    exact Alike.of_quiet t (hq.2 t ht) (blank_freshAll _ u hu).quiet h.symm

/-- Where an activation stands before tick `n`, if a child is still due. -/
theorem underway_ticked {cs : List Blueprint} (hshape : t.shape = .parallel cs) (hq : t.Quiet)
    (hus : ∀ u ∈ freshAll cs, u.Separable rs limit bbs 1) : ∀ n, (∃ u ∈ freshAll cs, u.Unfinished rs limit bbs n) →
    (∀ j < n, ∃ s, t.resultAt rs limit bbs j = .ok s) →
    ∃ c xs, t.ticked rs limit bbs n = node parallelId (slotDefaults cs) c (xs.map (·.2)) ∧
      Underway rs limit bbs n (freshAll cs) (slotDefaults cs) c xs := by
  intro n
  induction n with
  | zero => exact fun _ _ => Underway.start hshape hq
  | succ n ih =>
      intro ⟨u, hu, hdue⟩ hruns
      have hactive : ∃ u ∈ freshAll cs, u.Unfinished rs limit bbs n := ⟨u, hu, hdue.mono (Nat.le_succ n)⟩
      obtain ⟨c, xs, htree, hunder⟩ := ih hactive fun j hj => hruns j (Nat.lt_succ_of_lt hj)
      obtain ⟨s, hs⟩ := hruns n (Nat.lt_succ_self n)
      rw [resultAt, htree] at hs
      rcases hunder.tick hus hactive with ⟨ys, hys, -, hpart⟩ | ⟨⟨e, herr⟩, -⟩
      · refine ⟨_, ys, ?_, .next hys ⟨u, hu, hdue⟩⟩
        rw [ticked, htree, hpart]
        rfl
      · rw [herr] at hs
        cases hs

/-- Once all children are done, nothing is running any more. -/
theorem quiet_combined (h : Slots rs limit bbs n us xs) (hdone : ¬ ∃ u ∈ us, u.Unfinished rs limit bbs n) :
    (combined defaults xs).Quiet := by
  have hrunning := h.running_iff.not.mpr hdone
  rw [combined, quiet_node]
  refine ⟨fun hr => hrunning (combine_eq_running.mp (Option.some.inj hr)), fun t ht => ?_⟩
  obtain ⟨x, hx, rfl⟩ := List.mem_map.mp ht
  exact h.quiet x hx fun hr => hrunning (List.mem_map.mpr ⟨x, hx, hr⟩)

end LiveTree

end BehaviorTree
