import BehaviorTree.Proofs.Machine.Runs

/-!
# The tick counter of a run

A tick of the root counts, whether it fails or not, and no other call does.
-/

namespace BehaviorTree

open Run

variable {b : Blob} {m : Machine} {C : Contract b}

namespace Contract.Upheld

theorem reset_counts [C.Forgiving] (h : C.Upheld m) (i : Nat) (w : World b) (hon : C.Everywhere w.inst) :
    (m.reset i : Run b Unit).Yields w fun _ w' => w'.inst.tick = w.inst.tick := by
  rcases Nat.lt_or_ge i b.size with hi | hi
  · exact (h.resetTree (Forgiving.forgives i) hi w hon).mono fun _ _ hr => hr.1.tick
  · have hout : m.behaviorAt b i = Checked.fail (.indexOutOfRange i b.size) := if_pos hi
    unfold Machine.reset
    rw [yields_bind, yields_lift, hout]
    rfl

/-- What a call adds to the counter. -/
theorem call_counts [C.Forgiving] (h : C.Upheld m) {t : Tree b} (ht : C.Between t) {a : Act}
    (ha : a.TicksRoot) (bb : Blackboard) :
    (t.call m bb a).2.1.inst.tick = t.inst.tick + if a = .tick then 1 else 0 := by
  have hsame : ∀ x : Run b Unit, (x.Yields ⟨t.inst, bb⟩ fun _ w' => w'.inst.tick = t.inst.tick) →
      (t.run bb (x >>= fun _ => pure (none : Option Status))).2.1.inst.tick = t.inst.tick := by
    intro x hx
    have hbind : (x >>= fun _ => pure (none : Option Status)).Yields ⟨t.inst, bb⟩ fun _ w' =>
        w'.inst.tick = t.inst.tick := hx.bind (fun _ _ h => h) fun _ _ h => h
    exact t.run_yields bb hbind
  cases a with
  | tick =>
      have hkept := h.tickWithin_kept (m.config.maxTickDepth - t.inst.depth) 0 b.size_pos
        ⟨t.inst.advance, bb⟩ ht.advance
      refine t.tick_yields bb (Q := fun _ w' => w'.inst.tick = t.inst.tick + 1) ?_
      rw [Machine.tick, yields_bind, yields_inst]
      exact hkept.mono fun _ _ hr => hr.1.tick
  | reset =>
      rw [if_neg (by decide), UInt64.add_zero]
      exact Tree.run_yields ({ t with last := none } : Tree b) bb (h.reset_counts 0 ⟨t.inst, bb⟩ ht.everywhere)
  | tickAt i => exact ha.elim
  | resetAt i =>
      rw [if_neg (by simp), UInt64.add_zero]
      exact hsame (m.reset i) (h.reset_counts i ⟨t.inst, bb⟩ ht.everywhere)
  | abortAt i =>
      rw [if_neg (by simp), UInt64.add_zero]
      refine hsame (Machine.abort i) ?_
      unfold Machine.abort
      split
      · rfl
      · rename_i hi
        exact (clearSubtree_yields (Nat.lt_of_not_le hi)).mono fun _ _ hr => hr.2.1.tick
  | restoreAt i =>
      rw [if_neg (by simp), UInt64.add_zero]
      refine hsame (update (·.resetSubtree i)) ?_
      rw [yields_update]
      rcases Nat.lt_or_ge i b.size with hi | hi
      · obtain ⟨s', hs', hnew⟩ := Instance.resetSubtree_renews t.inst hi
        rw [hs']
        exact hnew.tick
      · rw [t.inst.resetSubtree_of_le hi]
  | restoreAll =>
      rw [if_neg (by simp), UInt64.add_zero]
      exact hsame (update fun s => .ok s.resetAll) rfl

theorem after_counts [C.Forgiving] (h : C.Upheld m) : ∀ (acts : List (Act × Blackboard)),
    (∀ x ∈ acts, x.1.TicksRoot) → ∀ {t : Tree b}, C.Between t →
    (t.after m acts).inst.tick = t.inst.tick + .ofNat (acts.countP (·.1 = .tick))
  | [], _, t, _ => by simp [Tree.after]
  | (a, bb) :: rest, hacts, t, ht => by
      rw [List.forall_mem_cons] at hacts
      rw [Tree.after, after_counts h rest hacts.2 (h.call_between ht hacts.1 bb).1, h.call_counts ht hacts.1,
        List.countP_cons, UInt64.add_assoc, Nat.add_comm, UInt64.ofNat_add]
      simp only [decide_eq_true_eq]
      split <;> rfl

end Contract.Upheld

end BehaviorTree
