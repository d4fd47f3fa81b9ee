import BehaviorTree.Proofs.Library.Faults
import BehaviorTree.Proofs.Trace.Loops

/-!
# What tick functions tell

The tick function of a node tells what happens to its children, one after another, and nothing of the node
itself.
-/

namespace BehaviorTree

open Library Run

variable {b : Blob} {m : Machine} {hm : m.Discreet} {cb : Callbacks b} {i : Nat}

/-- What a tick function of node `i` does below the node, if the node is ready for it. -/
def Narrates (C : Contract b) (i : Nat) (x : Run b Status) : Prop :=
  ∀ w, w.board.Logging → C.On w.inst (i + 1) (b.stop i) → C.ready w.inst i → x.Yields w fun r w' =>
    Segment C i (i + 1) (b.stop i) (∃ st, r = .ok st) w w'

namespace Library

section Composites

variable (hi : i < b.size) (hkept : ∀ c ∈ b.childList i, (hm.contract b).Kept c (cb.tick c))
  (htold : ∀ c ∈ b.childList i, Told (hm.contract b) c (cb.tick c))

include hi hkept htold

theorem tickWhile_narrates (keep : Status) :
    Narrates (hm.contract b) i (do tickWhile keep cb.tick (← Run.children i)) := by
  intro w hlog hon _
  simp only [yields_bind, children_yields hi]
  exact tickWhile_segment keep (Blob.stop_le hi) (Nat.lt_succ_self i) (Blob.tiles hi) hkept htold w hlog hon

theorem parallel_narrates (hbh : m.behaviorAt b i = .ok parallel) (rs : Registries) :
    Narrates (hm.contract b) i (parallel.tick rs cb i) := by
  intro w hlog hon hready
  have hmarked := Typing.marked_of_tends hi hbh hready.1
  simp only [parallel, yields_bind, children_yields hi, anyRunning_yields hi]
  cases hss : (w.inst.cell i).statuses i ((b.childList i).zipIdx.map (·.2)) with
  | error e => exact (Segment.refl hlog hon).failed
  | ok ss =>
      have hmap : Checked.ofExcept ((decide <| Status.running ∈ ·) <$> (.ok ss : Except Error _)) =
          .ok (decide (Status.running ∈ ss)) := rfl
      simp only [hmap]
      by_cases hany : Status.running ∈ ss
      · simp only [hany, decide_true, ↓reduceIte, yields_bind, yields_pure]
        refine (tickSlots_segment (Blob.stop_le hi) (Nat.lt_succ_self i) (Blob.tiles hi) hkept htold w hlog hon
          hmarked).mono ?_
        intro r w' hseg
        cases r with
        | error e => exact hseg.failed
        | ok rs => exact hseg.mono fun _ => ⟨rs, rfl⟩
      · simp only [hany, decide_false, Bool.false_eq_true, ↓reduceIte, yields_bind, yields_fail]
        exact (Segment.refl hlog hon).failed

theorem single_narrates {bh : Behavior} (hbh : m.behaviorAt b i = .ok bh)
    (hs : bh ∈ [repetition, inverter, force]) {post : Status → Run b Status}
    (hpost : ∀ st (w : World b), (post st).Yields w fun _ w' =>
      w.inst.OwnData i w'.inst ∧ w.board.SparesTrace w'.board)
    {c : Nat} {cs : List Nat} (hcs : b.childList i = c :: cs) (w : World b) (hlog : w.board.Logging)
    (hon : (hm.contract b).On w.inst (i + 1) (b.stop i)) (hready : (hm.contract b).ready w.inst i) :
    (cb.tick c >>= post).Yields w fun r w' => Segment (hm.contract b) i (i + 1) (b.stop i) (∃ st, r = .ok st) w w' := by
  have hsize := Blob.stop_le hi
  have ht := Blob.tiles hi
  rw [hcs] at ht
  obtain ⟨rfl, hlt, hle, ht⟩ := ht
  have hc : i + 1 ∈ b.childList i := by
    rw [hcs]
    exact List.mem_cons_self
  -- a running child other than the first would not be tended
  have hrest : ∀ d ∈ cs, ¬ w.inst.Running d := by
    intro d hd hrun
    obtain ⟨k, hk⟩ := List.mem_iff_getElem?.mp hd
    obtain ⟨bh', hbh', htends⟩ := hready.1 (k + 1) d ⟨hi, by rw [hcs]; exact hk⟩ hrun
    rw [hbh] at hbh'
    cases hbh'
    exact Nat.succ_ne_zero k ((Behavior.tends_single hs).mp htends)
  rw [yields_bind]
  refine ((htold _ hc).segment (hkept _ hc) i w hlog (hon.mono (Nat.le_refl _) hle)).mono ?_
  rintro r w₁ ⟨hf, hseg⟩
  cases r with
  | error e => exact (hseg.stopped (Nat.lt_succ_self i) hlt hle hsize hon).failed
  | ok st =>
      have hon₁ := hseg.rest (Nat.lt_succ_self i) hlt hsize hon
      have hquiet := Typing.quiet_children hsize ht hon₁ fun d hd => by
        have hge := (ht.mem hd).1
        rw [Instance.Running, hf.cell d fun h => Nat.not_lt.mpr hge h.2]
        exact hrest d hd
      have hall := hseg.append (Nat.lt_succ_self i) hlt hle hsize (.quiet hseg.logging hon₁ hquiet)
      refine (hpost st w₁).mono ?_
      rintro r w₂ ⟨hown, hspare⟩
      exact (hall.before_own (Nat.lt_succ_self i) hsize hown hspare).mono fun _ => ⟨st, rfl⟩

theorem repetition_narrates (hbh : m.behaviorAt b i = .ok repetition) (rs : Registries) :
    Narrates (hm.contract b) i (repetition.tick rs cb i) := by
  intro w hlog hon hready
  rw [repetition_tick, yields_bind, onlyChild_yields hi]
  cases hcs : b.childList i with
  | nil => exact (Segment.refl hlog hon).failed
  | cons c cs =>
      have hpost : ∀ (st : Status) (w : World b), (countResult i st).Yields w fun _ w' =>
          w.inst.OwnData i w'.inst ∧ w.board.SparesTrace w'.board := fun st w =>
        (countResult_own i st w).and ((countResult_keepsBoard i st).spares w)
      exact single_narrates hi hkept htold hbh (by simp) hpost hcs w hlog hon hready

theorem inverter_narrates (hbh : m.behaviorAt b i = .ok inverter) (rs : Registries) :
    Narrates (hm.contract b) i (inverter.tick rs cb i) := by
  intro w hlog hon hready
  rw [inverter_tick, yields_bind, onlyChild_yields hi]
  cases hcs : b.childList i with
  | nil => exact (Segment.refl hlog hon).failed
  | cons c cs =>
      exact single_narrates hi hkept htold hbh (by simp) (fun st w => ⟨Instance.OwnData.refl i _, .refl _⟩) hcs w
        hlog hon hready

theorem force_narrates (hbh : m.behaviorAt b i = .ok force) (rs : Registries) :
    Narrates (hm.contract b) i (force.tick rs cb i) := by
  intro w hlog hon hready
  rw [force_tick, yields_bind, onlyChild_yields hi]
  cases hcs : b.childList i with
  | nil => exact (Segment.refl hlog hon).failed
  | cons c cs =>
      dsimp only
      rw [yields_bind, readStatus_yields hi]
      cases (w.inst.cell i).status i 0 with
      | error e => exact (Segment.refl hlog hon).failed
      | ok forced =>
          exact single_narrates hi hkept htold hbh (by simp) (fun st w => ⟨Instance.OwnData.refl i _, .refl _⟩)
            hcs w hlog hon hready

end Composites

theorem leaf_narrates (hi : i < b.size) {bh : Behavior} (hbh : m.behaviorAt b i = .ok bh)
    (hleaf : bh ∉ composites) : Narrates (hm.contract b) i (bh.tick m.registries cb i) := by
  intro w hlog hon hready
  have hnone : ∀ c ∈ b.childList i, ¬ w.inst.Running c := by
    intro c hc hrun
    obtain ⟨k, hk⟩ := Blob.exists_isChild_of_mem hi hc
    obtain ⟨bh', hbh', ht⟩ := hready.1 k c hk hrun
    rw [hbh] at hbh'
    cases hbh'
    exact hleaf ht.mem_composites
  have hquiet := Typing.quiet_children (Blob.stop_le hi) (Blob.tiles hi) hon hnone
  refine ((((hm.standard.behaviorAt hbh).isLeaf hleaf).tick m.registries cb i w).and
    (hm.tick_spares hbh hleaf cb w)).mono ?_
  rintro r w' ⟨hown, hspare⟩
  exact (Segment.quiet hlog hon hquiet).before_own (Nat.lt_succ_self i) (Blob.stop_le hi) hown hspare

/-- Every tick function narrates if the ticks of the children are told. -/
theorem tickFunction_narrates (hi : i < b.size) {bh : Behavior} (hbh : m.behaviorAt b i = .ok bh)
    (hkept : ∀ c ∈ b.childList i, (hm.contract b).Kept c (cb.tick c))
    (htold : ∀ c ∈ b.childList i, Told (hm.contract b) c (cb.tick c)) :
    Narrates (hm.contract b) i (bh.tick m.registries cb i) := by
  by_cases hc : bh ∈ composites
  · have hc' := hc
    simp only [composites, List.mem_cons, List.not_mem_nil, or_false] at hc'
    rcases hc' with rfl | rfl | rfl | rfl | rfl | rfl
    · exact tickWhile_narrates hi hkept htold .success
    · exact tickWhile_narrates hi hkept htold .failure
    · exact parallel_narrates hi hkept htold hbh _
    · exact repetition_narrates hi hkept htold hbh _
    · exact inverter_narrates hi hkept htold hbh _
    · exact force_narrates hi hkept htold hbh _
  · exact leaf_narrates hi hbh hc

end Library

end BehaviorTree
