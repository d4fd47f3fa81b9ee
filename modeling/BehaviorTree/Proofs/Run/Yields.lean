import BehaviorTree.Machine.Tick

/-!
# What a computation on a world yields

`x.Yields w Q`: the outcome of `x` from `w` and the world afterwards satisfy `Q`, also when `x` fails.
The rules take a computation apart step by step.
-/

namespace BehaviorTree

namespace Run

variable {b : Blob} {α β : Type} {w : World b}

theorem exec_bind (x : Run b α) (f : α → Run b β) : (x >>= f).exec w =
    match x.exec w with
    | (.ok a, w') => (f a).exec w'
    | (.error e, w') => (.error e, w') := by
  change Run.exec (ExceptT.bind x f) w = _
  simp only [ExceptT.bind, exec, ExceptT.run, ExceptT.mk, StateT.run, bind, StateT.bind]
  rcases x w with ⟨_ | _, _⟩ <;> rfl

/-- The outcome of `x` from `w`, and the world after it, satisfy `Q`. -/
def Yields (x : Run b α) (w : World b) (Q : Except Fault α → World b → Prop) : Prop :=
  Q (x.exec w).1 (x.exec w).2

theorem Yields.mono {x : Run b α} {P Q : Except Fault α → World b → Prop} (hx : x.Yields w P)
    (h : ∀ r w', P r w' → Q r w') : x.Yields w Q := h _ _ hx

theorem Yields.and {x : Run b α} {P Q : Except Fault α → World b → Prop} (hp : x.Yields w P)
    (hq : x.Yields w Q) : x.Yields w fun r w' => P r w' ∧ Q r w' := ⟨hp, hq⟩

theorem yields_exec (x : Run b α) (w : World b) : x.Yields w fun r w' => x.exec w = (r, w') := rfl

theorem Yields.bind {x : Run b α} {f : α → Run b β} {P : Except Fault α → World b → Prop}
    {Q : Except Fault β → World b → Prop} (hx : x.Yields w P)
    (ok : ∀ a w', P (.ok a) w' → (f a).Yields w' Q)
    (error : ∀ e w', P (.error e) w' → Q (.error e) w') : (x >>= f).Yields w Q := by
  unfold Yields at *
  rw [exec_bind]
  rcases h : x.exec w with ⟨r, w'⟩
  rw [h] at hx
  cases r with
  | ok a => exact ok a w' hx
  | error e => exact error e w' hx

/-! ## Rules -/

section Rules

variable {Q : Except Fault α → World b → Prop}

@[simp] theorem yields_pure {a : α} : (pure a : Run b α).Yields w Q ↔ Q (.ok a) w := Iff.rfl

@[simp] theorem yields_throw {e : Fault} : (throw e : Run b α).Yields w Q ↔ Q (.error e) w := Iff.rfl

@[simp] theorem yields_fail {e : Error} :
    (fail e : Run b α).Yields w Q ↔ Q (.error (.error e)) w := Iff.rfl

@[simp] theorem yields_lift {c : Checked α} : (lift c : Run b α).Yields w Q ↔ Q c w := by
  cases c <;> exact Iff.rfl

@[simp] theorem yields_bind {x : Run b β} {f : β → Run b α} : (x >>= f).Yields w Q ↔
    x.Yields w fun r w' => match r with
      | .ok a => (f a).Yields w' Q
      | .error e => Q (.error e) w' := by
  unfold Yields
  rw [exec_bind]
  rcases x.exec w with ⟨_ | _, _⟩ <;> rfl

end Rules

@[simp] theorem yields_inst {Q : Except Fault (Instance b) → World b → Prop} :
    (inst : Run b (Instance b)).Yields w Q ↔ Q (.ok w.inst) w := Iff.rfl

@[simp] theorem yields_board {Q : Except Fault Blackboard → World b → Prop} :
    (board : Run b Blackboard).Yields w Q ↔ Q (.ok w.board) w := Iff.rfl

@[simp] theorem yields_setInst {s : Instance b} {Q : Except Fault Unit → World b → Prop} :
    (setInst s).Yields w Q ↔ Q (.ok ()) { w with inst := s } := Iff.rfl

@[simp] theorem yields_setBoard {bb : Blackboard} {Q : Except Fault Unit → World b → Prop} :
    (setBoard bb).Yields w Q ↔ Q (.ok ()) { w with board := bb } := Iff.rfl

@[simp] theorem yields_attempt {x : Run b α} {Q : Except Fault (Except Fault α) → World b → Prop} :
    x.attempt.Yields w Q ↔ x.Yields w fun r w' => Q (.ok r) w' := Iff.rfl

/-- A change of the instance succeeds with the new instance or leaves the world alone. -/
@[simp] theorem yields_update {f : Instance b → Checked (Instance b)}
    {Q : Except Fault Unit → World b → Prop} : (update f).Yields w Q ↔
      match f w.inst with
      | .ok s => Q (.ok ()) { w with inst := s }
      | .error e => Q (.error e) w := by
  unfold update
  rw [yields_bind, yields_inst]
  simp only [yields_bind, yields_lift, yields_setInst]
  cases f w.inst <;> exact Iff.rfl

end Run

end BehaviorTree
