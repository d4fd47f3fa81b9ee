import BehaviorTree.Proofs.Machine.Contract
import BehaviorTree.Proofs.Trace.Account
import BehaviorTree.Proofs.Trace.Records

/-!
# Parts of a tick function

While the tick function of node `i` runs, its children are dealt with one after another. A segment is the
part of it that deals with the nodes from `lo` to before `hi`: it touches these and the data of node `i`,
keeps the contract, and the events that it records are an account of it.
-/

namespace BehaviorTree

variable {b : Blob} {C : Contract b} {whole whole' : Prop} {i c lo hi : Nat} {w w' w₁ w₂ : World b}

structure Segment (C : Contract b) (i lo hi : Nat) (whole : Prop) (w w' : World b) : Prop where
  frame : w.inst.Frame (fun j => j = i ∨ Within lo hi j) w'.inst
  on : C.On w'.inst lo hi
  told : ∃ evs, w.board.Records w'.board evs ∧ Account whole lo hi w.inst w'.inst evs

namespace Segment

theorem logging (h : Segment C i lo hi whole w w') : w'.board.Logging := by
  obtain ⟨evs, hrec, -⟩ := h.told
  exact hrec.logging

theorem mono (h : Segment C i lo hi whole w w') (hw : whole' → whole) : Segment C i lo hi whole' w w' := by
  obtain ⟨evs, hrec, hacc⟩ := h.told
  exact ⟨h.frame, h.on, evs, hrec, hacc.mono hw⟩

/-- What fails is not whole. -/
theorem failed {α : Type} {e : Fault} (h : Segment C i lo hi whole w w') :
    Segment C i lo hi (∃ a : α, (.error e : Except Fault α) = .ok a) w w' := by
  obtain ⟨evs, hrec, hacc⟩ := h.told
  exact ⟨h.frame, h.on, evs, hrec, hacc.failed⟩

/-- Nothing is done. -/
theorem refl (hlog : w.board.Logging) (hon : C.On w.inst lo hi) : Segment C i lo hi False w w :=
  ⟨Instance.Frame.refl _ _, hon, [], .refl hlog, .silent (fun _ _ => Or.inl rfl) False.elim⟩

/-- Nothing is done, and no node is running. -/
theorem quiet (hlog : w.board.Logging) (hon : C.On w.inst lo hi)
    (hq : ∀ j, Within lo hi j → ¬ w.inst.Running j) : Segment C i lo hi whole w w :=
  ⟨Instance.Frame.refl _ _, hon, [], .refl hlog,
    .silent (fun _ _ => Or.inl rfl) fun _ x hx => ⟨hq x hx, Or.inl rfl⟩⟩

/-- A subtree is made inactive. -/
theorem aborted (hlog : w.board.Logging) (hon : C.On w.inst c (b.stop c)) (hc : c < b.size)
    (hclear : w.inst.Clears c (b.stop c) w'.inst) (hboard : w'.board = w.board) :
    Segment C i c (b.stop c) whole w w' := by
  have hnone : ∀ x, Within c (b.stop c) x → (w'.inst.cell x).state = none := fun x hx => by
    rw [hclear.inside x hx.1 hx.2]
  refine ⟨hclear.frame.mono fun _ => Or.inr, Contract.On.clears (fun p hp => (hon p hp).1) hc hclear, [], ?_,
    .silent (fun x hx => Or.inr (hnone x hx)) fun _ x hx => ⟨hclear.not_running hx, Or.inr (hnone x hx)⟩⟩
  rw [hboard]
  exact .refl hlog

section Neighbours

variable (hic : i < c) (hc : c < b.stop c) (hhi : b.stop c ≤ hi) (hsize : hi ≤ b.size)

include hic hc hhi hsize

omit hhi in
/-- The nodes after the subtree of the segment are as they were. -/
theorem rest (h : Segment C i c (b.stop c) whole w w₁) (hon : C.On w.inst c hi) : C.On w₁.inst (b.stop c) hi :=
  (hon.mono (Nat.le_of_lt hc) (Nat.le_refl _)).after hsize h.frame fun j hj => by
    rcases hj with rfl | hj
    · omega
    · exact hj.2

theorem append (h : Segment C i c (b.stop c) whole w w₁) (h' : Segment C i (b.stop c) hi whole w₁ w₂) :
    Segment C i c hi whole w w₂ := by
  obtain ⟨evs, hrec, hacc⟩ := h.told
  obtain ⟨evs', hrec', hacc'⟩ := h'.told
  have hcs : c < b.size := by omega
  have hleft : ∀ x, Within c (b.stop c) x → w₂.inst.cell x = w₁.inst.cell x := fun x hx =>
    h'.frame.cell x fun hj => by
      have := hx.1
      have := hx.2
      rcases hj with rfl | hj
      · omega
      · exact Nat.not_lt.mpr hj.1 hx.2
  have hright : ∀ x, Within (b.stop c) hi x → w₁.inst.cell x = w.inst.cell x := fun x hx =>
    h.frame.cell x fun hj => by
      have := hx.1
      rcases hj with rfl | hj
      · omega
      · exact Nat.not_lt.mpr hx.1 hj.2
  refine ⟨?_, ?_, evs ++ evs', hrec.trans hrec', ?_⟩
  · refine Instance.Frame.trans (h.frame.mono ?_) (h'.frame.mono ?_)
    · exact fun j hj => hj.imp_right fun hj => ⟨hj.1, Nat.lt_of_lt_of_le hj.2 hhi⟩
    · exact fun j hj => hj.imp_right fun hj => ⟨Nat.le_trans (Nat.le_of_lt hc) hj.1, hj.2⟩
  · refine (h.on.apart hcs h'.frame fun j hj hin => ?_).append h'.on
    rcases hj with rfl | hj
    · exact Nat.not_le.mpr hic hin.1
    · exact Nat.not_lt.mpr hj.1 hin.2
  · refine (hacc.congr rfl (fun _ _ => rfl) hleft).append
      (hacc'.congr h.frame.tick.symm (fun x hx => (hright x hx).symm) fun _ _ => rfl) (Nat.le_of_lt hc) hhi ?_
    exact fun x hx => Blob.stop_le_stop c hcs x hx.1 hx.2

/-- The tick function ends here. -/
theorem stopped (h : Segment C i c (b.stop c) whole w w₁) (hon : C.On w.inst c hi) :
    Segment C i c hi False w w₁ :=
  (h.mono False.elim).append hic hc hhi hsize (.refl h.logging (h.rest hic hc hsize hon))

end Neighbours

/-- The tick function works on the data of its own node at the end. -/
theorem before_own (hlo : i < lo) (hhi : hi ≤ b.size) (h : Segment C i lo hi whole w w₁)
    (hown : w₁.inst.OwnData i w₂.inst) (hboard : w₁.board.SparesTrace w₂.board) :
    Segment C i lo hi whole w w₂ := by
  obtain ⟨evs, hrec, hacc⟩ := h.told
  refine ⟨h.frame.trans (hown.toFrame.mono fun _ => Or.inl), h.on.after hhi hown.toFrame fun j hj => by omega,
    evs, ?_, hacc.congr rfl (fun _ _ => rfl) fun x hx => ?_⟩
  · have hboth := hrec.trans (.of_spares hboard h.logging)
    rw [List.append_nil] at hboth
    exact hboth
  · rw [hown.cell x fun h => by have := hx.1; omega]

end Segment

end BehaviorTree
