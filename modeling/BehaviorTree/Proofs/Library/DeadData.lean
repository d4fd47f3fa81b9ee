import BehaviorTree.Proofs.Library.Private

/-!
# Dead data never matters

A tick restores the data of a node before it reads it, unless the node is running. So two instances of a
tree that differ in the data of nodes that are not running answer every call alike, and so they do ever
after.
-/

namespace BehaviorTree

open Library Run

variable {b : Blob} {m : Machine} {i : Nat}

namespace Twins

variable {S : Nat → Prop} {w v : World b}

section Ticks

variable (hm : m.Private) (hdefault : ∀ i < b.size, m.SelfContained b i (b.defaults i))

include hm hdefault

/-- An activation makes the data of its node the same on both sides. -/
theorem activate_agrees (h : Twins m S w v) (hi : i < b.size) {bh : Behavior}
    (hbh : m.behaviorAt b i = .ok bh) :
    (m.activate bh i).Agrees w (m.activate bh i) v fun _ => Twins m fun j => S j ∨ j = i := by
  have hself : Respects (Twins m fun j => S j ∨ j = i) (do (bh.reset i : Run b Unit); m.trace i .reset) :=
    (respects_resetFunction hm hi (Or.inr rfl) hbh).bind fun _ => respects_trace _ i .reset
  refine Agrees.bind (h.sets_agrees (g := fun c => { c with bytes := b.defaults i })
    (fun s => s.restore_sets hi) ?_ (hdefault i hi)) ?_ ?_
  · rw [h.inst.state i]
  · rintro u w' v' ⟨-, h'⟩
    exact hself w' v' h'
  · rintro e w' v' ⟨he, -⟩
    cases he

theorem prepare_agrees (h : Twins m S w v) : (m.prepare i).Agrees w (m.prepare i) v fun r w' v' =>
    match r with
    | .ok bh => m.behaviorAt b i = .ok bh ∧ Twins m (fun j => S j ∨ j = i) w' v'
    | .error _ => Twins m S w' v' := by
  unfold Machine.prepare
  refine Agrees.lift_bind (fun bh hbh => ?_) fun _ _ => h
  have hi : i < b.size := Machine.lt_of_behaviorAt hbh
  rw [agrees_inst_bind, h.inst.state_eq i, Instance.state_eq w.inst hi]
  refine Agrees.lift_bind (fun st hst => ?_) fun _ _ => h
  cases hst
  by_cases hr : w.inst.Running i
  · have hs : (w.inst.cell i).state = some .running := hr
    simp only [hs, ne_eq, not_true_eq_false, ↓reduceIte]
    refine agrees_pure.mpr ⟨hbh, h.inst.mono ?_, h.board, ?_⟩
    · rintro j ((hj | rfl) | hj)
      · exact Or.inl hj
      · exact Or.inr hr
      · exact Or.inr hj
    · rintro j ((hj | rfl) | hj)
      · exact h.timers j (Or.inl hj)
      · exact h.timers j (Or.inr hr)
      · exact h.timers j (Or.inr hj)
  · have hs : (w.inst.cell i).state ≠ some .running := hr
    simp only [hs, ne_eq, not_false_eq_true, ↓reduceIte]
    refine (h.activate_agrees hm hdefault hi hbh).bind (fun _ w' v' h' => agrees_pure.mpr ⟨hbh, h'⟩) ?_
    intro e w' v' h'
    exact h'.mono fun _ hj => Or.inl hj

omit hm hdefault in
theorem respects_perform (hi : i < b.size) (hS : S i) {x : Run b Status} (hx : Respects (Twins m S) x) :
    Respects (Twins m S) (m.perform i x) := by
  have hattempt : Respects (Twins m S) x.attempt := fun w v h => (hx w v h).attempt
  refine respects_enter (hattempt.bind fun r => respects_leave ?_)
  cases r with
  | error e => exact (respects_clearSubtree S hi).bind fun _ => .throw e
  | ok s =>
      exact (respects_setState hi hS s).bind fun _ => (respects_trace S i (.tick s)).bind fun _ => .pure s

theorem respects_tickWithin : ∀ (room i : Nat) (S : Nat → Prop),
    Respects (Twins m S) (m.tickWithin room i : Run b Status) := by
  intro room
  induction room with
  | zero =>
      intro i S w v h
      refine (h.prepare_agrees hm hdefault).bind (fun bh w' v' h' => ?_) fun _ _ _ h' => h'
      exact Respects.fail _ w' v' (h'.2.mono fun _ hj => Or.inl hj)
  | succ room ih =>
      intro i S w v h
      refine (h.prepare_agrees hm hdefault).bind ?_ fun _ _ _ h' => h'
      rintro bh w' v' ⟨hbh, h'⟩
      have hi : i < b.size := Machine.lt_of_behaviorAt hbh
      have htick : Respects (Twins m fun j => S j ∨ j = i) (bh.tick m.registries ⟨m.tickWithin room, m.reset⟩ i) :=
        respects_tickFunction hm hi (Or.inr rfl) hbh fun c => ih c _
      refine (respects_perform hi (Or.inr rfl) htick w' v' h').mono fun r w'' v'' h'' => ?_
      exact h''.mono fun _ hj => Or.inl hj

theorem respects_tick (i : Nat) (S : Nat → Prop) : Respects (Twins m S) (m.tick i : Run b Status) := by
  intro w v h
  unfold Machine.tick
  rw [agrees_inst_bind, h.inst.depth]
  exact respects_tickWithin hm hdefault _ i S w v h

omit hm in
theorem resetSubtree_agrees (h : Twins m S w v) :
    (update (·.resetSubtree i) : Run b Unit).Agrees w (update (·.resetSubtree i)) v fun r w' v' =>
      Twins m S w' v' ∧ (r = .ok () → Twins m (fun j => S j ∨ Within i (b.stop i) j) w' v') := by
  rcases Nat.lt_or_ge i b.size with hi | hi
  · obtain ⟨s, hs, hnew⟩ := Instance.resetSubtree_renews w.inst hi
    obtain ⟨s', hs', hnew'⟩ := Instance.resetSubtree_renews v.inst hi
    have h' : Twins m (fun j => S j ∨ Within i (b.stop i) j) { w with inst := s } { v with inst := s' } :=
      h.renews hdefault (Blob.stop_le hi) hnew hnew' rfl rfl
    simp only [Agrees, yields_update, hs, hs', true_and]
    exact ⟨h'.mono fun _ hj => Or.inl hj, fun _ => h'⟩
  · simp only [Agrees, yields_update, Instance.resetSubtree_of_le _ hi, true_and]
    exact ⟨h, fun he => by cases he⟩

omit hdefault in
theorem respects_resetNode (hS : S i) : Respects (Twins m S) (m.resetNode i : Run b Unit) :=
  .lift_bind fun _ hbh => respects_resetFunction hm (Machine.lt_of_behaviorAt hbh) hS hbh

theorem respects_reset (i : Nat) (S : Nat → Prop) : Respects (Twins m S) (m.reset i : Run b Unit) := by
  refine .lift_bind fun bh hbh => ?_
  have hi : i < b.size := Machine.lt_of_behaviorAt hbh
  have hrest : Respects (Twins m fun j => S j ∨ Within i (b.stop i) j) (do
      let stop ← lift (b.endOf i)
      (List.range' i (stop - i)).forM m.resetNode
      (m.trace i .reset : Run b Unit)) := by
    refine .lift_bind fun stop hstop => ?_
    rw [Blob.endOf_eq hi] at hstop
    cases hstop
    refine (Respects.forM fun j hj => ?_).bind fun _ => respects_trace _ i .reset
    rw [List.mem_range'_1] at hj
    exact respects_resetNode hm (Or.inr ⟨hj.1, by omega⟩)
  intro w v h
  refine (resetSubtree_agrees hdefault h).bind (fun _ w' v' h' => ?_) fun _ _ _ h' => h'.1
  exact (hrest w' v' (h'.2 rfl)).mono fun _ _ _ h'' => h''.mono fun _ hj => Or.inl hj

omit hm in
theorem respects_restoreAt (i : Nat) (S : Nat → Prop) :
    Respects (Twins m S) (update (·.resetSubtree i) : Run b Unit) := fun _ _ h =>
  (resetSubtree_agrees hdefault h).mono fun _ _ _ h' => h'.1

omit hm in
theorem respects_restoreAll (S : Nat → Prop) :
    Respects (Twins m S) (update fun s => .ok s.resetAll : Run b Unit) := by
  intro w v h
  have heq : v.inst.resetAll = w.inst.resetAll := by rw [Instance.resetAll, Instance.resetAll, h.inst.tick]
  simp only [Agrees, yields_update, heq, true_and]
  refine ⟨⟨fun _ => rfl, fun _ _ => rfl, rfl, rfl⟩, h.board, fun i _ hd => ?_⟩
  have hcell : w.inst.resetAll.cell i = (Instance.new b).cell i := rfl
  have hi : i < b.size := Machine.lt_of_behaviorAt hd
  have hself := hdefault i hi hd
  rw [hcell, Instance.cell_new hi]
  exact hself

end Ticks

/-- Trees without a running node differ in dead data only. -/
theorem of_cleared {s s' t t' : Instance b} {bb : Blackboard} (h : s.Clears 0 b.size t)
    (h' : s'.Clears 0 b.size t') (htick : s'.tick = s.tick) (hdepth : s'.depth = s.depth) :
    Twins m (fun _ => False) ⟨t, bb⟩ ⟨t', bb⟩ := by
  have hquiet : ∀ j, ¬ (False ∨ t.Running j) := fun j hj =>
    h.not_running ⟨Nat.zero_le j, (hj.resolve_left id).lt⟩ (hj.resolve_left id)
  refine ⟨⟨fun j => ?_, fun j hj => absurd hj (hquiet j), by rw [h'.tick, h.tick, htick],
    by rw [h'.depth, h.depth, hdepth]⟩, rfl, fun j hj => absurd hj (hquiet j)⟩
  rcases Nat.lt_or_ge j b.size with hj | hj
  · rw [h'.inside j (Nat.zero_le j) hj, h.inside j (Nat.zero_le j) hj]
  · rw [t'.state_cell_of_le hj, t.state_cell_of_le hj]

end Twins

/-! ## Runs -/

namespace Tree

variable {S : Nat → Prop} {t t' : Tree b} {bb : Blackboard}

/-- What the host gets back, call by call: an answer and the blackboard. -/
def answers (t : Tree b) (m : Machine) :
    List (Act × Blackboard) → List (Except Fault (Option Status) × Blackboard)
  | [] => []
  | (a, bb) :: rest => match t.call m bb a with
    | (r, t, bb) => (r, bb) :: t.answers m rest

/-- The outcomes of two trees are the same, and both are left as twins. -/
def Alike {α : Type} (m : Machine) (x y : Except Fault α × Tree b × Blackboard) : Prop :=
  y.1 = x.1 ∧ Twins m (fun _ => False) ⟨x.2.1.inst, x.2.2⟩ ⟨y.2.1.inst, y.2.2⟩

theorem run_alike (h : Twins m (fun _ => False) ⟨t.inst, bb⟩ ⟨t'.inst, bb⟩) {α : Type} {x : Run b α}
    (hx : Respects (Twins m fun _ => False) x) : Alike m (t.run bb x) (t'.run bb x) := hx _ _ h

theorem Alike.map {α β : Type} {x y : Except Fault α × Tree b × Blackboard} (h : Alike m x y) (f : α → β) :
    Alike m (x.1.map f, x.2) (y.1.map f, y.2) := ⟨congrArg (·.map f) h.1, h.2⟩

theorem abort_root (t : Tree b) (bb : Blackboard) : (t.call m bb (.abortAt 0)).1 = .ok none ∧
    t.inst.Clears 0 b.size (t.call m bb (.abortAt 0)).2.1.inst ∧ (t.call m bb (.abortAt 0)).2.2 = bb := by
  refine t.run_yields bb (Q := fun r w => r = .ok none ∧ t.inst.Clears 0 b.size w.inst ∧ w.board = bb) ?_
  unfold Machine.abort
  rw [if_neg (Nat.not_le.mpr b.size_pos), yields_bind]
  refine (clearSubtree_yields b.size_pos).mono ?_
  rintro r w ⟨rfl, hc, hb⟩
  rw [b.stop_root] at hc
  exact ⟨rfl, hc, hb⟩

section

variable (hm : m.Private) (hdefault : ∀ i < b.size, m.SelfContained b i (b.defaults i))

include hm hdefault

theorem tick_alike (h : Twins m (fun _ => False) ⟨t.inst, bb⟩ ⟨t'.inst, bb⟩) :
    Alike m (t.tick m bb) (t'.tick m bb) := by
  have hadv : Twins m (fun _ => False) ⟨t.inst.advance, bb⟩ ⟨t'.inst.advance, bb⟩ :=
    ⟨⟨h.inst.state, h.inst.bytes, congrArg (· + 1) h.inst.tick, h.inst.depth⟩, rfl, h.timers⟩
  exact t'.tick_yields bb (t.tick_yields bb (Twins.respects_tick hm hdefault 0 _ _ _ hadv))

theorem call_alike (h : Twins m (fun _ => False) ⟨t.inst, bb⟩ ⟨t'.inst, bb⟩) (a : Act) :
    Alike m (t.call m bb a) (t'.call m bb a) := by
  have hunit : ∀ x : Run b Unit, Respects (Twins m fun _ => False) x →
      Alike m (t.run bb (do x; return (none : Option Status))) (t'.run bb (do x; return none)) :=
    fun x hx => run_alike h (hx.bind fun _ => .pure none)
  cases a with
  | tick => exact (tick_alike hm hdefault h).map some
  | reset =>
      have hreset : Alike m (t.reset m bb) (t'.reset m bb) := Twins.respects_reset hm hdefault 0 _ _ _ h
      exact hreset.map _
  | tickAt i => exact run_alike h ((Twins.respects_tick hm hdefault i _).bind fun s => .pure (some s))
  | resetAt i => exact hunit _ (Twins.respects_reset hm hdefault i _)
  | abortAt i => exact hunit _ (Twins.respects_abort _ i)
  | restoreAt i => exact hunit _ (Twins.respects_restoreAt hdefault i _)
  | restoreAll => exact hunit _ (Twins.respects_restoreAll hdefault _)

theorem answers_alike : ∀ (acts : List (Act × Blackboard)) (t t' : Tree b),
    (∀ bb, Twins m (fun _ => False) ⟨t.inst, bb⟩ ⟨t'.inst, bb⟩) → t'.answers m acts = t.answers m acts ∧
      ∀ bb, Twins m (fun _ => False) ⟨(t.after m acts).inst, bb⟩ ⟨(t'.after m acts).inst, bb⟩
  | [], _, _, h => ⟨rfl, h⟩
  | (a, bb) :: rest, t, t', h => by
      obtain ⟨hr, htwins⟩ := call_alike hm hdefault (h bb) a
      obtain ⟨hanswers, hafter⟩ := answers_alike rest (t.call m bb a).2.1 (t'.call m bb a).2.1 fun bb =>
        ⟨htwins.inst, rfl, htwins.timers⟩
      refine ⟨?_, hafter⟩
      have hboard : (t'.call m bb a).2.2 = (t.call m bb a).2.2 := htwins.board
      rw [answers, answers]
      simp only [hr, hboard, hanswers]

/-- Calls do not depend on the data of nodes that are not running, and after an abort of the root on no
data at all. -/
theorem answers_of_agreeOn_running :
    (∀ t t' : Tree b, t.inst.AgreeOn t.inst.Running t'.inst →
      (∀ i, t.inst.Running i → m.SelfContained b i (t.inst.cell i).bytes) → ∀ acts,
      t'.answers m acts = t.answers m acts ∧
        (t.after m acts).inst.AgreeOn (t.after m acts).inst.Running (t'.after m acts).inst) ∧
    ∀ t t' : Tree b, t'.inst.tick = t.inst.tick → t'.inst.depth = t.inst.depth → ∀ bb acts,
      t'.answers m ((.abortAt 0, bb) :: acts) = t.answers m ((.abortAt 0, bb) :: acts) := by
  refine ⟨fun t t' hagree hself acts => ?_, fun t t' htick hdepth bb acts => ?_⟩
  · obtain ⟨hanswers, htwins⟩ := answers_alike hm hdefault acts t t' fun bb =>
      ⟨hagree.mono fun i hi => hi.resolve_left id, rfl, fun i hi => hself i (hi.resolve_left id)⟩
    exact ⟨hanswers, (htwins .empty).inst.mono fun i hi => Or.inr hi⟩
  · obtain ⟨hr, hc, hboard⟩ := abort_root (m := m) t bb
    obtain ⟨hr', hc', hboard'⟩ := abort_root (m := m) t' bb
    obtain ⟨hanswers, -⟩ := answers_alike hm hdefault acts (t.call m bb (.abortAt 0)).2.1
      (t'.call m bb (.abortAt 0)).2.1 fun _ => .of_cleared hc hc' htick hdepth
    rw [answers, answers]
    simp only [hr, hr', hboard, hboard', hanswers]

end

/-- A new timer with other bytes in its data. -/
def scrambledTimer : Tree .timer :=
  ⟨{ Instance.new .timer with data := .replicate _ 0xff }, none⟩

theorem answers_scrambledTimer : scrambledTimer.inst ≠ (Tree.new .timer).inst ∧
    scrambledTimer.answers .ofLibrary [(.tick, .empty), (.reset, .empty)] =
      (Tree.new .timer).answers .ofLibrary [(.tick, .empty), (.reset, .empty)] := by
  have hhandles : ∀ i < Blob.timer.size, Machine.ofLibrary.SelfContained .timer i (Blob.timer.defaults i) := by
    intro i hi _
    obtain rfl : i = 0 := Nat.lt_one_iff.mp hi
    have hdata : delayHandles (Blob.timer.defaults 0) =
        [⟨Variable.constantId, 20⟩, ⟨Variable.blackboardId, 24⟩] := rfl
    rw [hdata, List.forall_mem_cons, List.forall_mem_singleton]
    have hsingles := Machine.HasLibrary.ofLibrary.singles
    exact ⟨fun h => (by cases hsingles.constant.symm.trans h),
      fun h => (by cases hsingles.blackboard.symm.trans h)⟩
  have hquiet : ∀ i, ¬ (Tree.new .timer).inst.Running i := Instance.not_running_new
  have hagree : (Tree.new .timer).inst.AgreeOn (Tree.new .timer).inst.Running scrambledTimer.inst :=
    ⟨fun _ => rfl, fun i hi => absurd hi (hquiet i), rfl, rfl⟩
  exact ⟨by decide, ((answers_of_agreeOn_running .ofLibrary hhandles).1 _ _ hagree
    (fun i hi => absurd hi (hquiet i)) _).1⟩

end Tree

end BehaviorTree
