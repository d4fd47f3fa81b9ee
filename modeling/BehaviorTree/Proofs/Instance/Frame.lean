import BehaviorTree.Proofs.Instance.Cell

/-! # What a step leaves alone: the cells of other nodes and the counters -/

namespace BehaviorTree

def Within (lo hi j : Nat) : Prop := lo ≤ j ∧ j < hi

namespace Instance

variable {b : Blob} {s s' s'' : Instance b} {i lo mid hi : Nat} {T U : Nat → Prop}

/-- Only cells of nodes in `T` differ. -/
structure Frame (T : Nat → Prop) (s s' : Instance b) : Prop where
  cell : ∀ j, ¬ T j → s'.cell j = s.cell j
  tick : s'.tick = s.tick
  depth : s'.depth = s.depth

theorem Frame.refl (T : Nat → Prop) (s : Instance b) : Frame T s s := ⟨fun _ _ => rfl, rfl, rfl⟩

theorem Frame.mono (h : Frame T s s') (hT : ∀ j, T j → U j) : Frame U s s' :=
  ⟨fun j hj => h.cell j fun ht => hj (hT j ht), h.tick, h.depth⟩

theorem Frame.trans (h : Frame T s s') (h' : Frame T s' s'') : Frame T s s'' :=
  ⟨fun j hj => (h'.cell j hj).trans (h.cell j hj), h'.tick.trans h.tick, h'.depth.trans h.depth⟩

theorem Frame.widen {lo' hi' : Nat} (h : Frame (Within lo hi) s s') (hlo : lo' ≤ lo) (hhi : hi ≤ hi') :
    Frame (Within lo' hi') s s' :=
  h.mono fun _ hj => ⟨Nat.le_trans hlo hj.1, Nat.lt_of_lt_of_le hj.2 hhi⟩

theorem Sets.frame {c : Cell} (h : s.Sets i c s') : Frame (· = i) s s' := ⟨h.other, h.tick, h.depth⟩

theorem Clears.frame (h : s.Clears lo hi s') : Frame (Within lo hi) s s' := ⟨h.outside, h.tick, h.depth⟩

theorem Renews.frame (h : s.Renews lo hi s') : Frame (Within lo hi) s s' := ⟨h.outside, h.tick, h.depth⟩

@[simp] theorem cell_enter (s : Instance b) (j : Nat) : s.enter.cell j = s.cell j := rfl

/-- A level entered and left again does not show. -/
theorem Frame.leave (h : Frame T s.enter s') : Frame T s s'.leave :=
  ⟨h.cell, h.tick, by simp [Instance.leave, h.depth, enter]⟩

theorem Frame.subtree (h : Frame (· = i) s s') (hi : i < b.size) : Frame (Within i (b.stop i)) s s' :=
  h.mono fun j hj => by
    rw [hj]
    exact ⟨Nat.le_refl _, Blob.lt_stop hi⟩

def Running (s : Instance b) (i : Nat) : Prop := (s.cell i).state = some .running

instance (s : Instance b) (i : Nat) : Decidable (s.Running i) :=
  inferInstanceAs (Decidable ((s.cell i).state = some .running))

theorem Running.lt (h : s.Running i) : i < b.size := by
  refine Nat.lt_of_not_le fun hle => ?_
  simp [Running, s.state_cell_of_le hle] at h

theorem not_running_new (i : Nat) : ¬ (new b).Running i := fun h => by
  have hi := h.lt
  rw [Running, cell_new hi] at h
  cases h

/-- No node is running under a parent that is not. -/
def Overseen (s : Instance b) : Prop := ∀ p k c, b.IsChild p k c → s.Running c → s.Running p

/-- Where running nodes have running parents, no node below one that is not running is. -/
theorem quiet_below (hi : i < b.size) (h : ∀ p k c, Within i (b.stop i) p → b.IsChild p k c → s.Running c →
    s.Running p) (hr : ¬ s.Running i) : ∀ j, Within i (b.stop i) j → ¬ s.Running j := by
  intro j
  induction j using Nat.strongRecOn with
  | ind j ih =>
      intro hj hrun
      rcases Nat.eq_or_lt_of_le hj.1 with rfl | hlt
      · exact hr hrun
      · obtain ⟨p, k, hip, hk⟩ := Blob.exists_parent_within i hi j hlt hj.2
        have hp : Within i (b.stop i) p := ⟨hip, Nat.lt_trans hk.lt.1 hj.2⟩
        exact ih p hk.lt.1 hp (h p k j hp hk hrun)

/-- What becomes inactive does not start to run. -/
theorem Frame.running_of (h : Frame T s s') (hq : ∀ j, T j → ¬ s'.Running j) (hr : s'.Running i) : s.Running i := by
  rw [Running, ← h.cell i fun hi => hq i hi hr]
  exact hr

theorem Clears.not_running (h : s.Clears lo hi s') {j : Nat} (hj : Within lo hi j) : ¬ s'.Running j := by
  simp [Running, h.inside j hj.1 hj.2]

theorem Renews.not_running (h : s.Renews lo hi s') {j : Nat} (hj : Within lo hi j) : ¬ s'.Running j := by
  simp [Running, h.inside j hj.1 hj.2]

end Instance

end BehaviorTree
