import BehaviorTree.Proofs.Bounds
import BehaviorTree.Proofs.Run.Agree

/-!
# Computations that a relation couples

`Relates R F x y`: from worlds that `R` relates, `x` and `y` come to one outcome, which is no failure
outside `F`, and to worlds that `R` relates again. Where `R` is equality on the worlds with some property,
this says that `x` keeps the property.
-/

namespace BehaviorTree

namespace Run

variable {b : Blob} {α β : Type} {R : World b → World b → Prop} {F : Fault → Prop}

def Relates (R : World b → World b → Prop) (F : Fault → Prop) (x y : Run b α) : Prop :=
  ∀ w v, R w v → x.Agrees w y v fun r w' v' => R w' v' ∧ Checked.FailsBy F r

theorem relates_iff_respects {x : Run b α} : Relates R (fun _ => True) x x ↔ Respects R x :=
  forall_congr' fun _ => forall_congr' fun _ => imp_congr_right fun _ =>
    ⟨fun h => h.mono fun _ _ _ h' => h'.1, fun h => h.mono fun _ _ _ h' => ⟨h', fun _ _ => trivial⟩⟩

namespace Relates

theorem pure (a : α) : Relates R F (pure a : Run b α) (pure a) :=
  fun _ _ h => agrees_pure.mpr ⟨h, .ok a⟩

theorem lift {c : Checked α} (hc : c.FailsBy F) : Relates R F (lift c : Run b α) (lift c) :=
  fun _ _ h => agrees_lift.mpr ⟨h, hc⟩

theorem throw {e : Fault} (he : F e) : Relates R F (throw e : Run b α) (throw e) := lift (.error he)

theorem fail {e : Error} (he : F (.error e)) : Relates R F (fail e : Run b α) (fail e) := throw he

theorem bind {x y : Run b α} {f g : α → Run b β} (hx : Relates R F x y)
    (hf : ∀ a, Relates R F (f a) (g a)) : Relates R F (x >>= f) (y >>= g) := fun w v h =>
  (hx w v h).bind (fun a w' v' h' => hf a w' v' h'.1) fun e _ _ h' => ⟨h'.1, .error (h'.2 e rfl)⟩

theorem attempt {x y : Run b α} (hx : Relates R F x y) : Relates R F x.attempt y.attempt := fun w v h =>
  .attempt ((hx w v h).mono fun r _ _ h' => ⟨h'.1, .ok r⟩)

theorem lift_bind {c : Checked α} {f g : α → Run b β} (hc : c.FailsBy F)
    (hf : ∀ a, c = .ok a → Relates R F (f a) (g a)) :
    Relates R F (Run.lift c >>= f) (Run.lift c >>= g) := fun w v h =>
  .lift_bind (fun a ha => hf a ha w v h) fun e he => ⟨h, .error (hc e he)⟩

theorem forM {γ : Type} {f g : γ → Run b Unit} : ∀ {xs : List γ}, (∀ x ∈ xs, Relates R F (f x) (g x)) →
    Relates R F (forM xs f) (forM xs g)
  | [], _ => pure ()
  | x :: xs, h => by
      rw [List.forall_mem_cons] at h
      rw [List.forM_cons, List.forM_cons]
      exact h.1.bind fun _ => forM h.2

end Relates

end Run

end BehaviorTree
