import BehaviorTree.Proofs.Library.Supervision
import BehaviorTree.Proofs.Machine.Runs
import BehaviorTree.Proofs.Machine.Table

/-!
# Which nodes are left running

In every tree driven from its root a running node has a running parent, so a tree whose root is not
running is inactive below as well. A failed tick leaves a node running in one case only: the root came out
as running and just the record of that in the trace failed.
-/

namespace BehaviorTree

open Library

/-- A behavior of the library or a leaf. -/
def Behavior.IsStandard (bh : Behavior) : Prop := bh ∈ Library.behaviors.map (·.2) ∨ bh.IsLeaf

namespace Behavior.IsStandard

variable {bh : Behavior} (h : bh.IsStandard)

include h

theorem isLeaf (hc : bh ∉ composites) : bh.IsLeaf := by
  rcases h with hlib | hleaf
  · simp only [Library.behaviors, composites, List.map_cons, List.map_nil, List.mem_cons,
      List.not_mem_nil, or_false, not_or] at hlib hc
    rcases hlib with h | h | h | h | h | h | h | h
    · exact absurd h hc.1
    · exact absurd h hc.2.1
    · exact absurd h hc.2.2.1
    · exact absurd h hc.2.2.2.1
    · exact absurd h hc.2.2.2.2.1
    · exact absurd h hc.2.2.2.2.2
    · exact h ▸ fixed_isLeaf
    · exact h ▸ delay_isLeaf
  · exact hleaf

theorem reset_ownData {b : Blob} {i : Nat} (hi : i < b.size) (w : World b) :
    (bh.reset i).Yields w fun _ w' => w.inst.OwnData i w'.inst := by
  by_cases hc : bh ∈ composites
  · have hquiet : (Behavior.noReset i : Run b Unit).Yields w fun _ w' => w.inst.OwnData i w'.inst :=
      Instance.OwnData.refl i w.inst
    simp only [composites, List.mem_cons, List.not_mem_nil, or_false] at hc
    rcases hc with rfl | rfl | rfl | rfl | rfl | rfl
    · exact hquiet
    · exact hquiet
    · obtain ⟨s', hs', hset⟩ := Instance.fill_sets w.inst hi Status.running.bits
      simp only [parallel, Run.yields_update, hs']
      exact hset.ownData rfl
    · exact hquiet
    · exact hquiet
    · exact hquiet
  · exact (h.isLeaf hc).reset i w

end Behavior.IsStandard

/-- The behaviors of the machine are those of the library and leaves. -/
def Machine.Standard (m : Machine) : Prop :=
  ∀ id bh, m.behavior? id = some bh → bh ∈ Library.behaviors.map (·.2) ∨ bh.IsLeaf

namespace Machine.Standard

variable {m : Machine}

theorem empty : Machine.empty.Standard := fun _ _ h => by cases behavior?_empty.symm.trans h

theorem registerLibrary (h : m.Standard) : m.registerLibrary.1.Standard :=
  registerLibrary_induction h fun _ hx => Or.inl (List.mem_map_of_mem hx)

theorem ofLibrary : Machine.ofLibrary.Standard := empty.registerLibrary

theorem behaviorAt (h : m.Standard) {b : Blob} {i : Nat} {bh : Behavior} (hbh : m.behaviorAt b i = .ok bh) :
    bh.IsStandard := by
  obtain ⟨id, -, hid⟩ := behaviorAt_eq_ok hbh
  exact h id bh hid

end Machine.Standard

/-- No fault is excluded, and nothing is asked of the data. -/
def Typing.ofStandard (b : Blob) {m : Machine} (hm : ∀ i bh, m.behaviorAt b i = .ok bh → bh.IsStandard) :
    Typing b m where
  data _ _ := True
  live _ _ := True
  fault _ := True
  data_defaults _ _ := trivial
  live_of_ne _ _ _ := trivial
  unknown _ _ _ _ := trivial
  tooDeep _ _ := trivial
  untraced _ _ _ _ _ := trivial
  reset i hi bh hbh w _ := ((hm i bh hbh).reset_ownData hi w).mono fun r w' h =>
    ⟨h, trivial, by cases r <;> trivial⟩
  relabel _ _ _ _ _ _ _ := trivial
  illegible _ _ _ _ _ _ _ _ _ := trivial
  idle _ _ _ _ _ _ _ := trivial
  live_of_mem _ _ _ _ _ _ _ := trivial
  childless _ _ _ _ _ _ := trivial
  unforced _ _ _ _ _ _ _ := trivial
  uncounted _ _ _ _ _ _ _ := trivial
  count i hi _ c _ d := by cases c.write i 0 (PlainData.repeatData.encode d) <;> trivial
  leaf i hi bh hbh hc cb w _ := (((hm i bh hbh).isLeaf hc).tick m.registries cb i w).mono fun _ _ h =>
    ⟨h, trivial, fun _ _ => trivial⟩

def Typing.any (b : Blob) {m : Machine} (hm : m.Standard) : Typing b m :=
  .ofStandard b fun _ _ hbh => hm.behaviorAt hbh

variable {b : Blob} {m : Machine} {s : Instance b} {t : Tree b}

theorem Instance.running_iff {i : Nat} : s.Running i ↔ s.state i = .ok (some .running) := by
  constructor
  · intro h
    rw [state_eq s h.lt, h]
  · intro h
    have hi : i < b.size := by
      refine Nat.lt_of_not_le fun hle => ?_
      rw [state, Vector.getElem?_eq_none hle] at h
      cases h
    rw [state_eq s hi] at h
    exact Except.ok.inj h

/-- Between two calls, nodes supervise their children. -/
theorem supervised (hm : m.Standard) {acts : List (Act × Blackboard)} (hacts : ∀ x ∈ acts, x.1.TicksRoot) :
    (Typing.any b hm).contract.Between ((Tree.new b).after m acts) :=
  (Typing.any b hm).upheld.after_between acts hacts Contract.between_new

/-- A running node other than the root has a parent, and its parent is running. -/
theorem parent_running (hm : m.Standard) (acts : List (Act × Blackboard))
    (hacts : ∀ x ∈ acts, x.1.TicksRoot) (c : Nat) (hc : 0 < c)
    (hrun : ((Tree.new b).after m acts).inst.state c = .ok (some .running)) :
    (∃ p cs, b.children p = .ok cs ∧ c ∈ cs) ∧ ∀ p cs, b.children p = .ok cs → c ∈ cs →
      ((Tree.new b).after m acts).inst.state p = .ok (some .running) := by
  have hrun' := Instance.running_iff.mpr hrun
  refine ⟨?_, fun p cs hcs hmem => ?_⟩
  · obtain ⟨p, k, hk⟩ := Blob.exists_parent 0 b.size_pos c hc (by rw [b.stop_root]; exact hrun'.lt)
    exact ⟨p, _, Blob.children_eq hk.1, hk.mem⟩
  · have hp : p < b.size := by
      refine Nat.lt_of_not_le fun hle => ?_
      rw [Layout.children, Blob.endOf_of_le hle] at hcs
      cases hcs
    rw [Blob.children_eq hp] at hcs
    cases hcs
    obtain ⟨k, hk⟩ := Blob.exists_isChild_of_mem hp hmem
    have hsup := ((supervised hm hacts).everywhere p ⟨Nat.zero_le p, hp⟩).2
    exact Instance.running_iff.mp (hsup.child k c hk hrun').1

def Blob.busySequence : Blob := ⟨⟨#[sequenceId, fixedId], #[2, 2], #[0, 0], #[0, 1], #[4]⟩, by decide⟩

theorem parent_running_busySequence :
    ((Tree.new .busySequence).after .ofLibrary [(.tick, .empty)]).inst.state 1 = .ok (some .running) ∧
      ((Tree.new .busySequence).after .ofLibrary [(.tick, .empty)]).inst.state 0 = .ok (some .running) := by
  have h := parent_running (b := .busySequence) Machine.Standard.ofLibrary [(.tick, .empty)] (by decide) 1
    (by decide) rfl
  exact ⟨rfl, h.2 0 [1] rfl List.mem_cons_self⟩

/-- Below a node that is not running no node is. -/
theorem Typing.quiet_below {T : Typing b m} {s : Instance b} {i : Nat} (hi : i < b.size)
    (hon : T.contract.On s i (b.stop i)) (hr : ¬ s.Running i) : ∀ j, Within i (b.stop i) j → ¬ s.Running j :=
  Instance.quiet_below hi (fun p k c hp hk hrun => ((hon p hp).2.child k c hk hrun).1) hr

theorem Typing.root_running {T : Typing b m} (hs : T.contract.Everywhere s) (i : Nat) (hrun : s.Running i) :
    s.Running 0 := by
  have hon : T.contract.On s 0 (b.stop 0) := by
    rw [b.stop_root]
    exact hs
  refine Decidable.byContradiction fun hroot => ?_
  exact Typing.quiet_below b.size_pos hon hroot i ⟨Nat.zero_le i, by rw [b.stop_root]; exact hrun.lt⟩ hrun

theorem root_running (hm : m.Standard) (hs : (Typing.any b hm).contract.Everywhere s) (i : Nat)
    (hrun : s.Running i) : s.Running 0 := Typing.root_running hs i hrun

/-- A tick that fails before its trace event leaves nothing running. -/
theorem not_running_of_settle (hm : m.Standard) {e : Fault} (hs : (Typing.any b hm).contract.Everywhere s)
    (h : m.behaviorAt b 0 = .error e ∨ ¬ s.Running 0) (i : Nat) : ¬ s.Running i := by
  intro hi
  have hroot := root_running hm hs i hi
  rcases h with hunknown | hquiet
  · obtain ⟨⟨bh, hbh⟩, -⟩ := (hs 0 ⟨Nat.le_refl 0, b.size_pos⟩).2.self hroot
    rw [hunknown] at hbh
    cases hbh
  · exact hquiet hroot

/-- After a tick that failed, a node is running exactly if the root had come out as running, so that only
the record of it in the trace failed. -/
theorem running_after_failed_tick_iff (hm : m.Standard) (hdepth : 0 < m.config.maxTickDepth)
    (acts : List (Act × Blackboard)) (hacts : ∀ x ∈ acts, x.1.TicksRoot) (bb : Blackboard) (e : Fault)
    (hfail : (((Tree.new b).after m acts).tick m bb).1 = .error e) :
    (∃ i, (((Tree.new b).after m acts).tick m bb).2.1.inst.state i = .ok (some .running)) ↔
      ∃ w, (m.settle (m.config.maxTickDepth - 1) 0).exec
        ⟨((Tree.new b).after m acts).inst.advance, bb⟩ = (.ok .running, w) := by
  have hup := (Typing.any b hm).upheld
  have hbetween := supervised hm hacts (b := b)
  generalize (Tree.new b).after m acts = t at hbetween hfail ⊢
  have hsettle := hup.settle b.size_pos (fun c hc => hup.tickWithin_kept (m.config.maxTickDepth - 1) c
    (Blob.lt_size_of_mem_childList b.size_pos hc)) ⟨t.inst.advance, bb⟩ hbetween.advance
  simp only [← Instance.running_iff]
  refine t.tick_yields bb (Q := fun r w' => r = .error e → ((∃ i, w'.inst.Running i) ↔ _)) ?_ hfail
  have hroom : m.config.maxTickDepth - t.inst.advance.depth = m.config.maxTickDepth - 1 + 1 := by
    have hzero : t.inst.advance.depth = 0 := hbetween.depth
    omega
  rw [Machine.tick, Run.yields_bind, Run.yields_inst]
  simp only [hroom]
  rw [Machine.tickWithin_succ, Run.yields_bind]
  refine (hsettle.and (Run.yields_exec _ _)).mono ?_
  rintro r w₁ ⟨⟨_, hon₁, hr⟩, hexec⟩
  rw [b.stop_root] at hon₁
  cases r with
  | error e' =>
      intro _
      rw [hexec]
      constructor
      · rintro ⟨i, hi⟩
        exact absurd hi (not_running_of_settle hm hon₁ hr.2 i)
      · rintro ⟨w, hw⟩
        cases hw
  | ok st =>
      simp only [Run.yields_bind, Run.yields_pure]
      refine (m.trace_yields 0 (.tick st) w₁).mono ?_
      rintro r w₂ ⟨hinst, _⟩
      cases r with
      | ok u => exact fun h => by cases h
      | error e' =>
          intro _
          rw [hexec, hinst]
          constructor
          · rintro ⟨i, hi⟩
            have hroot := root_running hm hon₁ i hi
            rw [Instance.Running, hr] at hroot
            exact ⟨w₁, by rw [Option.some.inj hroot]⟩
          · rintro ⟨w, hw⟩
            cases hw
            exact ⟨0, hr⟩

def Blob.busyLeaf : Blob := ⟨⟨#[fixedId], #[1], #[0], #[1], #[4]⟩, by decide⟩

def Machine.tracing : Machine := { Machine.ofLibrary with config := ⟨256, true⟩ }

/-- A blackboard with a number where the trace should be. -/
def Blackboard.clogged : Blackboard := .set .empty (.plain .u32) traceLog (PlainData.u32.encode 0)

theorem running_after_failed_tick_busyLeaf :
    (((Tree.new .busyLeaf).after .tracing [(.tick, .empty)]).tick .tracing .clogged).1 =
      .error (.error (.board (.typeMismatch Blackboard.traceLog "TraceLog"))) ∧
    ∃ i, (((Tree.new .busyLeaf).after .tracing [(.tick, .empty)]).tick .tracing .clogged).2.1.inst.state i =
      .ok (some .running) :=
  ⟨rfl, (running_after_failed_tick_iff (b := .busyLeaf) (m := .tracing) Machine.Standard.ofLibrary
    (by decide) [(.tick, .empty)] (by decide) .clogged _ rfl).mpr ⟨_, rfl⟩⟩

end BehaviorTree
