import BehaviorTree.Proofs.Machine.Tick

/-! # Resets and aborts keep contracts -/

namespace BehaviorTree

variable {b : Blob} {m : Machine} {C : Contract b} {s s' : Instance b} {i : Nat}

namespace Contract

def Everywhere (C : Contract b) (s : Instance b) : Prop := C.On s 0 b.size

theorem everywhere_of_quiet (hdata : ∀ i < b.size, C.data i (s.cell i).bytes)
    (hq : ∀ i, ¬ s.Running i) : C.Everywhere s := fun p hp =>
  ⟨hdata p hp.2, C.holds_of_quiet hp.2 fun j _ => hq j⟩

theorem idle_of_default (hi : i < b.size) (h : s.cell i = ⟨none, b.defaults i⟩) :
    ¬ s.Running i ∧ C.data i (s.cell i).bytes := by
  rw [Instance.Running, h]
  exact ⟨(fun hr => by cases hr), C.data_defaults i hi⟩

/-- A subtree that became inactive, with data that is in order. -/
theorem Everywhere.cleared (h : C.Everywhere s) (hfor : C.Forgives i) (hi : i < b.size)
    (hf : s.Frame (Within i (b.stop i)) s') (hq : ∀ j, Within i (b.stop i) j → ¬ s'.Running j)
    (hdata : ∀ j, Within i (b.stop i) j → C.data j (s'.cell j).bytes) : C.Everywhere s' := by
  intro p hp
  by_cases hin : Within i (b.stop i) p
  · have hle := Blob.stop_le_stop i hi p hin.1 hin.2
    exact ⟨hdata p hin, C.holds_of_quiet hp.2 fun j hj =>
      hq j ⟨Nat.le_trans hin.1 hj.1, Nat.lt_of_lt_of_le hj.2 hle⟩⟩
  · rw [hf.cell p hin]
    exact ⟨(h p hp).1, hfor hi hp.2 hin hf.cell hq (h p hp).2⟩

namespace Upheld

/-- What a pass of reset functions over the nodes from `lo` to before `hi` leaves there. -/
theorem resetNodes (h : C.Upheld m) {hi : Nat} (hhi : hi ≤ b.size) : ∀ (n lo : Nat), lo + n = hi →
    ∀ w : World b, (∀ j, Within lo hi j → w.inst.cell j = ⟨none, b.defaults j⟩) →
    ((List.range' lo n).forM (m.resetNode (b := b))).Yields w fun r w' =>
      w.inst.Frame (Within lo hi) w'.inst ∧
      (∀ j, Within lo hi j → ¬ w'.inst.Running j ∧ C.data j (w'.inst.cell j).bytes) ∧
      ∀ e, r = .error e → C.fault e
  | 0, lo, hn, w, _ => by
      refine ⟨Instance.Frame.refl _ _, fun j hj => ?_, fun e he => nomatch he⟩
      have := hj.1
      have := hj.2
      omega
  | n + 1, lo, hn, w, hcells => by
      have hlo : lo < b.size := by omega
      have hfresh : ∀ j, Within lo hi j → ¬ w.inst.Running j ∧ C.data j (w.inst.cell j).bytes :=
        fun j hj => idle_of_default (Nat.lt_of_lt_of_le hj.2 hhi) (hcells j hj)
      rw [List.range'_succ, List.forM_eq_forM, List.forM_cons, Run.yields_bind, Machine.resetNode]
      simp only [Run.yields_bind, Run.yields_lift]
      cases hbh : m.behaviorAt b lo with
      | error e =>
          exact ⟨Instance.Frame.refl _ _, hfresh, fun e' he => by cases he; exact h.unknown lo hlo e hbh⟩
      | ok bh =>
          have hself : Within lo hi lo := ⟨Nat.le_refl _, by omega⟩
          refine (h.reset lo hlo bh hbh w (by rw [hcells lo hself])).mono ?_
          rintro r w₁ ⟨hown, hdata, hr⟩
          have hf : w.inst.Frame (Within lo hi) w₁.inst := hown.toFrame.mono fun j hj => by
            rw [hj]
            exact hself
          have hquiet : ¬ w₁.inst.Running lo := by
            rw [Instance.Running, hown.state]
            exact (hfresh lo hself).1
          have hothers : ∀ j, Within (lo + 1) hi j → w₁.inst.cell j = ⟨none, b.defaults j⟩ := by
            intro j hj
            have hlt := hj.1
            rw [hown.cell j (by omega)]
            exact hcells j ⟨by omega, hj.2⟩
          cases r with
          | error e =>
              refine ⟨hf, fun j hj => ?_, fun e' he => by cases he; exact hr⟩
              rcases Nat.eq_or_lt_of_le hj.1 with rfl | hlt
              · exact ⟨hquiet, hdata⟩
              · exact idle_of_default (Nat.lt_of_lt_of_le hj.2 hhi) (hothers j ⟨hlt, hj.2⟩)
          | ok u =>
              refine (resetNodes h hhi n (lo + 1) (by omega) w₁ hothers).mono ?_
              rintro r w₂ ⟨hf₂, hin, hr₂⟩
              refine ⟨hf.trans (hf₂.widen (Nat.le_succ lo) (Nat.le_refl _)), fun j hj => ?_, hr₂⟩
              rcases Nat.eq_or_lt_of_le hj.1 with rfl | hlt
              · rw [Instance.Running, hf₂.cell _ fun hw => by have := hw.1; omega]
                exact ⟨hquiet, hdata⟩
              · exact hin j ⟨hlt, hj.2⟩

theorem resetTree (h : C.Upheld m) (hfor : C.Forgives i) (hi : i < b.size) (w : World b)
    (hon : C.Everywhere w.inst) : (m.reset i).Yields w fun r w' =>
      w.inst.Frame (Within i (b.stop i)) w'.inst ∧ C.Everywhere w'.inst ∧ ∀ e, r = .error e → C.fault e := by
  have hlt := Blob.lt_stop hi
  unfold Machine.reset
  simp only [Run.yields_bind, Run.yields_lift]
  cases hbh : m.behaviorAt b i with
  | error e => exact ⟨Instance.Frame.refl _ _, hon, fun e' he => by cases he; exact h.unknown i hi e hbh⟩
  | ok bh =>
      obtain ⟨s₁, hs₁, hnew⟩ := Instance.resetSubtree_renews w.inst hi
      simp only [Run.yields_update, hs₁, Blob.endOf_eq hi]
      refine (h.resetNodes (Blob.stop_le hi) (b.stop i - i) i (by omega) ⟨s₁, w.board⟩
        fun j hj => hnew.inside j hj.1 hj.2).mono ?_
      rintro r w₂ ⟨hf, hin, hr⟩
      have hall : C.Everywhere w₂.inst := hon.cleared hfor hi (hnew.frame.trans hf)
        (fun j hj => (hin j hj).1) fun j hj => (hin j hj).2
      cases r with
      | error e => exact ⟨hnew.frame.trans hf, hall, hr⟩
      | ok u =>
          refine (h.trace i .reset w₂).mono ?_
          rintro r w₃ ⟨hinst, herr⟩
          rw [hinst]
          exact ⟨hnew.frame.trans hf, hall, herr⟩

end Upheld

theorem Everywhere.restored (h : C.Everywhere s) (hfor : C.Forgives i) (hi : i < b.size)
    (hr : s.Renews i (b.stop i) s') : C.Everywhere s' := by
  refine h.cleared hfor hi hr.frame (fun _ hj => hr.not_running hj) fun j hj => ?_
  rw [hr.inside j hj.1 hj.2]
  exact C.data_defaults j (Nat.lt_of_lt_of_le hj.2 (Blob.stop_le hi))

theorem Everywhere.aborted (h : C.Everywhere s) (hfor : C.Forgives i) (hi : i < b.size)
    (hc : s.Clears i (b.stop i) s') : C.Everywhere s' := by
  refine h.cleared hfor hi hc.frame (fun _ hj => hc.not_running hj) fun j hj => ?_
  rw [hc.inside j hj.1 hj.2]
  exact (h j ⟨Nat.zero_le _, Nat.lt_of_lt_of_le hj.2 (Blob.stop_le hi)⟩).1

end Contract

end BehaviorTree
