import BehaviorTree.Library
import BehaviorTree.Proofs.Machine.Contract
import BehaviorTree.Proofs.Run.Access

/-! # Behaviors that change their own data only -/

namespace BehaviorTree

variable {b : Blob} {w : World b} {i : Nat}

theorem Instance.OwnData.refl (i : Nat) (s : Instance b) : s.OwnData i s := ⟨Frame.refl _ _, rfl⟩

theorem Instance.Sets.ownData {s s' : Instance b} {c : Cell} (h : s.Sets i c s')
    (hc : c.state = (s.cell i).state) : s.OwnData i s' := ⟨h.frame, by rw [h.self, hc]⟩

theorem Cell.write_state {c c' : Cell} {t : ValueType} {o : Nat} {v : t.Value}
    (h : c.write i o v = .ok c') : c'.state = c.state := by
  unfold write at h
  split at h
  · cases h
  split at h
  · cases h
  split at h
  · cases h
  · cases h
    rfl

/-- A behavior that works on its own data and the blackboard and never ticks or resets a node. It may fail. -/
structure Behavior.IsLeaf (bh : Behavior) : Prop where
  reset : ∀ {b : Blob} (i : Nat) (w : World b), (bh.reset i).Yields w fun _ w' => w.inst.OwnData i w'.inst
  tick : ∀ {b : Blob} (rs : Registries) (cb : Callbacks b) (i : Nat) (w : World b),
    (bh.tick rs cb i).Yields w fun _ w' => w.inst.OwnData i w'.inst

namespace Run

theorem readStatus_only (i k : Nat) (w : World b) :
    (readStatus i k : Run b Status).Yields w fun _ w' => w' = w := by
  simp only [readStatus, yields_bind, yields_inst, yields_lift]
  cases w.inst.readAt PlainData.u8.type i k <;> trivial

theorem writeAt_own {t : ValueType} (ht : t.align ∣ dataAlign) (i o : Nat) (v : t.Value) (a : Address)
    (w : World b) : (update fun s => s.writeAt i o v a : Run b Unit).Yields w fun _ w' => w.inst.OwnData i w'.inst := by
  rcases Nat.lt_or_ge i b.size with hi | hi
  · refine (writeAt_yields hi ht o v a).mono fun r w' h => ?_
    unfold Puts at h
    split at h
    · rename_i hc
      exact h.2.1.ownData (Cell.write_state hc)
    · rw [h.2]
      exact Instance.OwnData.refl i _
  · have hfail : w.inst.writeAt i o v a = Checked.fail (.nodeOutOfRange i b.size) := by
      rw [Instance.writeAt, Instance.place, Instance.locate, if_pos hi]
      rfl
    rw [yields_update, hfail]
    exact Instance.OwnData.refl i _

theorem writeHead_own {α : Type} (p : PlainData α) (hp : p.type.align ∣ dataAlign) (i : Nat) (a : α)
    (w : World b) : (writeHead p i a : Run b Unit).Yields w fun _ w' => w.inst.OwnData i w'.inst :=
  writeAt_own hp i 0 (p.encode a) default w

theorem writeStatus_own (i k : Nat) (st : Status) (w : World b) :
    (writeStatus i k st : Run b Unit).Yields w fun _ w' => w.inst.OwnData i w'.inst :=
  writeAt_own ⟨dataAlign, (Nat.one_mul _).symm⟩ i k (PlainData.u8.encode st.bits) default w

end Run

namespace Library

theorem fixed_isLeaf : fixed.IsLeaf where
  reset i w := Instance.OwnData.refl i w.inst
  tick _ _ i w := (Run.readStatus_only i 0 w).mono fun _ _ h => h ▸ Instance.OwnData.refl i w.inst

theorem delay_isLeaf : delay.IsLeaf where
  reset i w := Instance.OwnData.refl i w.inst
  tick rs _ i w := by
    simp only [delay, readSingle, Run.readHead, Run.yields_bind, Run.yields_inst, Run.yields_board,
      Run.yields_lift, Run.yields_pure]
    cases w.inst.readAt PlainData.delayData.type i 0 with
    | error e => exact Instance.OwnData.refl i _
    | ok bs =>
        simp only []
        cases (PlainData.delayData.decode bs).duration.read rs PlainData.f32.type i w.inst w.board with
        | error e => exact Instance.OwnData.refl i _
        | ok duration =>
            simp only []
            cases (PlainData.delayData.decode bs).delta.read rs PlainData.f32.type i w.inst w.board with
            | error e => exact Instance.OwnData.refl i _
            | ok delta =>
                refine (Run.writeHead_own .delayData ⟨2, rfl⟩ i _ w).mono fun r w' h => ?_
                cases r <;> exact h

end Library

end BehaviorTree
