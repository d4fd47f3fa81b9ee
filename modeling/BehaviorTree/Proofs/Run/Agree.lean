import BehaviorTree.Proofs.Run.Yields

/-!
# Two computations side by side

`x.Agrees w y v Q`: started from `w` and from `v`, the computations come to one outcome, and this outcome
and the worlds after them satisfy `Q`. A computation respects a relation if it agrees with itself on
related worlds and leaves them related, whatever its outcome.
-/

namespace BehaviorTree

namespace Run

variable {b b' : Blob} {α β : Type}

def Agrees (x : Run b α) (w : World b) (y : Run b' α) (v : World b')
    (Q : Except Fault α → World b → World b' → Prop) : Prop :=
  x.Yields w fun r w' => y.Yields v fun r' v' => r' = r ∧ Q r w' v'

section

variable {w : World b} {v : World b'}

theorem Agrees.mono {x : Run b α} {y : Run b' α} {P Q : Except Fault α → World b → World b' → Prop}
    (h : x.Agrees w y v P) (hpq : ∀ r w' v', P r w' v' → Q r w' v') : x.Agrees w y v Q :=
  ⟨h.1, hpq _ _ _ h.2⟩

theorem Agrees.bind {x : Run b α} {y : Run b' α} {f : α → Run b β} {g : α → Run b' β}
    {P : Except Fault α → World b → World b' → Prop} {Q : Except Fault β → World b → World b' → Prop}
    (h : x.Agrees w y v P) (ok : ∀ a w' v', P (.ok a) w' v' → (f a).Agrees w' (g a) v' Q)
    (error : ∀ e w' v', P (.error e) w' v' → Q (.error e) w' v') :
    (x >>= f).Agrees w (y >>= g) v Q := by
  unfold Agrees Yields at *
  rw [exec_bind, exec_bind]
  rcases hx : x.exec w with ⟨r, w'⟩
  rcases hy : y.exec v with ⟨r', v'⟩
  rw [hx, hy] at h
  obtain ⟨heq, hp⟩ := h
  change r' = r at heq
  subst heq
  cases r' with
  | ok a => exact ok a w' v' hp
  | error e => exact ⟨rfl, error e w' v' hp⟩

/-- Outcomes of both, whatever they are, where the worlds after them agree. -/
theorem Agrees.attempt {x : Run b α} {y : Run b' α}
    {Q : Except Fault (Except Fault α) → World b → World b' → Prop}
    (h : x.Agrees w y v fun r => Q (.ok r)) : x.attempt.Agrees w y.attempt v Q :=
  ⟨congrArg Except.ok h.1, h.2⟩

theorem agrees_pure {a : α} {Q : Except Fault α → World b → World b' → Prop} :
    (pure a : Run b α).Agrees w (pure a) v Q ↔ Q (.ok a) w v := by
  simp [Agrees]

theorem agrees_lift {c : Checked α} {Q : Except Fault α → World b → World b' → Prop} :
    (lift c : Run b α).Agrees w (lift c) v Q ↔ Q c w v := by
  simp [Agrees]

theorem Agrees.lift_bind {c : Checked α} {f : α → Run b β} {g : α → Run b' β}
    {Q : Except Fault β → World b → World b' → Prop} (ok : ∀ a, c = .ok a → (f a).Agrees w (g a) v Q)
    (error : ∀ e, c = .error e → Q (.error e) w v) : (lift c >>= f).Agrees w (lift c >>= g) v Q := by
  refine Agrees.bind (P := fun r w' v' => r = c ∧ w' = w ∧ v' = v) (agrees_lift.mpr ⟨rfl, rfl, rfl⟩) ?_ ?_
  · rintro a w' v' ⟨hc, rfl, rfl⟩
    exact ok a hc.symm
  · rintro e w' v' ⟨hc, rfl, rfl⟩
    exact error e hc.symm

theorem agrees_inst_bind {f : Instance b → Run b α} {g : Instance b' → Run b' α}
    {Q : Except Fault α → World b → World b' → Prop} :
    (inst >>= f).Agrees w (inst >>= g) v Q ↔ (f w.inst).Agrees w (g v.inst) v Q := Iff.rfl

theorem agrees_setInst_bind {s : Instance b} {s' : Instance b'} {x : Unit → Run b α} {y : Unit → Run b' α}
    {Q : Except Fault α → World b → World b' → Prop} : (setInst s >>= x).Agrees w (setInst s' >>= y) v Q ↔
      (x ()).Agrees { w with inst := s } (y ()) { v with inst := s' } Q := Iff.rfl

end

/-! ## Relations that a computation respects -/

def Respects (R : World b → World b → Prop) (x : Run b α) : Prop :=
  ∀ w v, R w v → x.Agrees w x v fun _ => R

namespace Respects

variable {R : World b → World b → Prop}

theorem pure (a : α) : Respects R (pure a : Run b α) := fun _ _ h => agrees_pure.mpr h

theorem lift (c : Checked α) : Respects R (lift c : Run b α) := fun _ _ h => agrees_lift.mpr h

theorem throw (e : Fault) : Respects R (throw e : Run b α) := lift (.error e)

theorem fail (e : Error) : Respects R (fail e : Run b α) := throw (.error e)

theorem bind {x : Run b α} {f : α → Run b β} (hx : Respects R x) (hf : ∀ a, Respects R (f a)) :
    Respects R (x >>= f) := fun w v h =>
  (hx w v h).bind (fun a w' v' h' => hf a w' v' h') fun _ _ _ h' => h'

theorem lift_bind {c : Checked α} {f : α → Run b β} (hf : ∀ a, c = .ok a → Respects R (f a)) :
    Respects R (Run.lift c >>= f) := fun w v h =>
  .lift_bind (fun a ha => hf a ha w v h) fun _ _ => h

theorem children (i : Nat) : Respects R (children i : Run b (List Nat)) := lift _

theorem forM {γ : Type} {f : γ → Run b Unit} : ∀ {xs : List γ}, (∀ x ∈ xs, Respects R (f x)) →
    Respects R (forM xs f)
  | [], _ => pure ()
  | x :: xs, h => by
      rw [List.forall_mem_cons] at h
      rw [List.forM_cons]
      exact h.1.bind fun _ => forM h.2

end Respects

end Run

end BehaviorTree
