import BehaviorTree.Proofs.Trace.Discreet
import BehaviorTree.Proofs.Trace.Segment

/-!
# What loops over children tell

The children of a composite are ticked, aborted or left alone, in order. Those left alone are not running,
so when a loop comes to a result nothing is left running that was not ticked.
-/

namespace BehaviorTree

open Library Run

variable {b : Blob} {m : Machine}

theorem Typing.quiet_children {T : Typing b m} {s : Instance b} {hi : Nat} (hhi : hi ≤ b.size) :
    ∀ {cs : List Nat} {lo : Nat}, b.Tiles hi lo cs → T.contract.On s lo hi → (∀ c ∈ cs, ¬ s.Running c) →
    ∀ j, Within lo hi j → ¬ s.Running j
  | [], lo, ht, _, _, j, hj => by
      have := hj.1
      have := hj.2
      have : lo = hi := ht
      omega
  | c :: cs, lo, ⟨hc, hlt, hle, ht⟩, hon, hq, j, hj => by
      subst hc
      rw [List.forall_mem_cons] at hq
      rcases Nat.lt_or_ge j (b.stop c) with h | h
      · exact quiet_below (by omega) (hon.mono (Nat.le_refl _) hle) hq.1 j ⟨hj.1, h⟩
      · exact quiet_children hhi ht (hon.mono (Nat.le_of_lt hlt) (Nat.le_refl _)) hq.2 j ⟨h, hj.2⟩

/-- A tick of node `c` whose events are an account of its subtree. -/
def Told (C : Contract b) (c : Nat) (x : Run b Status) : Prop :=
  ∀ w, w.board.Logging → C.On w.inst c (b.stop c) → x.Yields w fun r w' =>
    ∃ evs, w.board.Records w'.board evs ∧ Account (∃ st, r = .ok st) c (b.stop c) w.inst w'.inst evs

theorem Told.segment {C : Contract b} {c : Nat} {x : Run b Status} (ht : Told C c x) (hk : C.Kept c x) (i : Nat)
    (w : World b) (hlog : w.board.Logging) (hon : C.On w.inst c (b.stop c)) : x.Yields w fun r w' =>
      w.inst.Frame (Within c (b.stop c)) w'.inst ∧ Segment C i c (b.stop c) (∃ st, r = .ok st) w w' := by
  refine ((hk w hon).and (ht w hlog hon)).mono ?_
  rintro r w' ⟨⟨hf, hon', -⟩, htold⟩
  exact ⟨hf, hf.mono fun _ => Or.inr, hon', htold⟩

namespace Library

variable {hm : m.Discreet} {tk : Nat → Run b Status} {i c k hi : Nat}

theorem abortOne_segment (i : Nat) (hc : c < b.size) (w : World b) (hlog : w.board.Logging)
    (hon : (hm.contract b).On w.inst c (b.stop c)) : (abortOne c).Yields w fun r w' =>
      r = .ok () ∧ Segment (hm.contract b) i c (b.stop c) True w w' := by
  simp only [abortOne, yields_bind, yields_inst, yields_lift, Instance.state_eq _ hc]
  split
  · rw [Machine.abort, if_neg (Nat.not_le.mpr hc)]
    refine (clearSubtree_yields hc).mono ?_
    rintro r w₁ ⟨hr, hclear, hboard⟩
    exact ⟨hr, .aborted hlog hon hc hclear hboard⟩
  · rename_i hs
    exact ⟨rfl, .quiet hlog hon (Typing.quiet_below hc hon hs)⟩

theorem abortRunning_segment (hhi : hi ≤ b.size) : ∀ {cs : List Nat} {lo i : Nat}, i < lo → b.Tiles hi lo cs →
    ∀ w : World b, w.board.Logging → (hm.contract b).On w.inst lo hi → (abortRunning cs).Yields w fun r w' =>
      r = .ok () ∧ Segment (hm.contract b) i lo hi True w w'
  | [], lo, _, _, ht, w, hlog, hon => ⟨rfl, .quiet hlog hon (Typing.quiet_children hhi ht hon nofun)⟩
  | c :: cs, lo, i, hlo, ⟨hc, hlt, hle, ht⟩, w, hlog, hon => by
      subst hc
      have hcs : c < b.size := by omega
      rw [abortRunning_cons, yields_bind]
      refine (abortOne_segment i hcs w hlog (hon.mono (Nat.le_refl _) hle)).mono ?_
      rintro r w₁ ⟨hr, hseg⟩
      subst hr
      refine (abortRunning_segment hhi (i := i) (by omega) ht w₁ hseg.logging (hseg.rest hlo hlt hhi hon)).mono ?_
      rintro r w₂ ⟨hr, hseg'⟩
      exact ⟨hr, hseg.append hlo hlt hle hhi hseg'⟩

theorem tickWhile_segment (keep : Status) (hhi : hi ≤ b.size) : ∀ {cs : List Nat} {lo : Nat}, i < lo →
    b.Tiles hi lo cs → (∀ c ∈ cs, (hm.contract b).Kept c (tk c)) → (∀ c ∈ cs, Told (hm.contract b) c (tk c)) →
    ∀ w : World b, w.board.Logging → (hm.contract b).On w.inst lo hi → (tickWhile keep tk cs).Yields w
      fun r w' => Segment (hm.contract b) i lo hi (∃ st, r = .ok st) w w'
  | [], lo, _, ht, _, _, w, hlog, hon => .quiet hlog hon (Typing.quiet_children hhi ht hon nofun)
  | c :: cs, lo, hlo, ⟨hc, hlt, hle, ht⟩, hkept, htold, w, hlog, hon => by
      subst hc
      rw [List.forall_mem_cons] at hkept htold
      rw [tickWhile, yields_bind]
      refine (htold.1.segment hkept.1 i w hlog (hon.mono (Nat.le_refl _) hle)).mono ?_
      rintro r w₁ ⟨-, hseg⟩
      have hon₁ := hseg.rest hlo hlt hhi hon
      cases r with
      | error e => exact (hseg.stopped hlo hlt hle hhi hon).failed
      | ok st =>
          by_cases hst : st = keep
          · simp only [hst, ↓reduceIte]
            refine (tickWhile_segment keep hhi (by omega) ht hkept.2 htold.2 w₁ hseg.logging hon₁).mono ?_
            intro r w₂ hseg'
            exact (hseg.mono fun _ => ⟨st, rfl⟩).append hlo hlt hle hhi hseg'
          · simp only [hst, ↓reduceIte, yields_bind, yields_pure]
            refine (abortRunning_segment hhi (i := i) (by omega) ht w₁ hseg.logging hon₁).mono ?_
            rintro r w₂ ⟨rfl, hseg'⟩
            exact (hseg.mono fun _ => ⟨st, rfl⟩).append hlo hlt hle hhi (hseg'.mono fun _ => trivial)

theorem tickSlot_segment (hic : i < c) (hc : c < b.size) (hkept : (hm.contract b).Kept c (tk c))
    (htold : Told (hm.contract b) c (tk c)) (w : World b) (hlog : w.board.Logging)
    (hon : (hm.contract b).On w.inst c (b.stop c))
    (hmark : w.inst.Running c → (w.inst.cell i).bytes[k]? = some Status.running.bits) :
    (tickSlot tk i c k).Yields w fun r w' => Segment (hm.contract b) i c (b.stop c) (∃ st, r = .ok st) w w' := by
  have hi : i < b.size := Nat.lt_trans hic hc
  simp only [tickSlot, yields_bind, readStatus_yields hi]
  cases hst : (w.inst.cell i).status i k with
  | error e => exact (Segment.refl hlog hon).failed
  | ok st =>
      have hbyte := Cell.status_eq_ok.mp hst
      obtain ⟨hk, -⟩ := List.getElem?_eq_some_iff.mp hbyte
      simp only [Checked.ofExcept_ok]
      cases hrun : st.isRunning with
      | false =>
          refine .quiet hlog hon (Typing.quiet_below hc hon fun hr => ?_)
          have hbits := hmark hr
          rw [hbyte, Option.some.injEq] at hbits
          rw [Status.bits_injective hbits] at hrun
          cases hrun
      | true =>
          simp only [↓reduceIte, yields_bind, yields_pure]
          refine (htold.segment hkept i w hlog hon).mono ?_
          rintro r w₁ ⟨hf₁, hseg⟩
          have hself : w₁.inst.cell i = w.inst.cell i := hf₁.cell i fun h => Nat.not_lt.mpr h.1 hic
          cases r with
          | error e => exact hseg.failed
          | ok st' =>
              rw [← hself] at hk
              refine (writeStatus_yields hi hk st').mono ?_
              rintro r w₂ ⟨rfl, hset, hboard⟩
              refine (hseg.before_own hic (Blob.stop_le hc) (hset.ownData rfl) ?_).mono fun _ => ⟨st', rfl⟩
              rw [hboard]
              exact .refl _

theorem tickSlots_segment (hhi : hi ≤ b.size) : ∀ {cs : List Nat} {lo k : Nat}, i < lo → b.Tiles hi lo cs →
    (∀ c ∈ cs, (hm.contract b).Kept c (tk c)) → (∀ c ∈ cs, Told (hm.contract b) c (tk c)) →
    ∀ w : World b, w.board.Logging → (hm.contract b).On w.inst lo hi → Marked w.inst i k cs →
    (tickSlots tk i (cs.zipIdx k)).Yields w fun r w' =>
      Segment (hm.contract b) i lo hi (∃ rs, r = .ok rs) w w'
  | [], lo, k, _, ht, _, _, w, hlog, hon, _ => .quiet hlog hon (Typing.quiet_children hhi ht hon nofun)
  | c :: cs, lo, k, hlo, ⟨hc, hlt, hle, ht⟩, hkept, htold, w, hlog, hon, hmarked => by
      subst hc
      have hcs : c < b.size := by omega
      have honc := hon.mono (Nat.le_refl _) hle
      rw [List.forall_mem_cons] at hkept htold
      rw [marked_cons] at hmarked
      rw [List.zipIdx_cons, tickSlots_cons, yields_bind]
      refine ((tickSlot_kept hlo hcs hkept.1 w honc hmarked.1 fun _ _ => trivial).and
        (tickSlot_segment hlo hcs hkept.1 htold.1 w hlog honc hmarked.1)).mono ?_
      rintro r w₁ ⟨⟨h₁, hother, -⟩, hseg⟩
      have hon₁ := hseg.rest hlo hlt hhi hon
      have hmarked₁ : Marked w₁.inst i (k + 1) cs := by
        refine hmarked.2.congr (fun d hd => ?_) fun j hj => hother j (by omega)
        have hstop := (ht.mem hd).1
        exact h₁.cell hlo (Nat.lt_of_lt_of_le hlt hstop) hstop
      cases r with
      | error e => exact (hseg.stopped hlo hlt hle hhi hon).failed
      | ok st =>
          simp only [yields_bind, yields_pure]
          refine (tickSlots_segment hhi (by omega) ht hkept.2 htold.2 w₁ hseg.logging hon₁ hmarked₁).mono ?_
          intro r w₂ hseg'
          have hboth := (hseg.mono fun _ => ⟨st, rfl⟩).append hlo hlt hle hhi hseg'
          cases r with
          | error e => exact hboth.failed
          | ok rs => exact hboth.mono fun _ => ⟨rs, rfl⟩

end Library

end BehaviorTree
