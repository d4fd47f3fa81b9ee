import BehaviorTree.Proofs.Run.Bounds
import BehaviorTree.Proofs.Run.Relate

/-!
# What a tick function is made of

A tick function gets the functions that tick and reset a node as a parameter. Here it is taken apart into steps
of its own, ticks and resets of nodes. What holds of these and is kept by sequences and attempts holds of the
whole.
-/

namespace BehaviorTree

namespace Run

variable {b : Blob} {α β : Type}

/-! ## What a computation does to a world, whatever its outcome -/

/-- From every world, `x` comes to one that `Q` relates to it. -/
def Obeys (Q : World b → World b → Prop) (x : Run b α) : Prop := ∀ w, x.Yields w fun _ w' => Q w w'

namespace Obeys

variable {Q Q' : World b → World b → Prop}

theorem mono {x : Run b α} (h : x.Obeys Q) (hQ : ∀ w w', Q w w' → Q' w w') : x.Obeys Q' := fun w =>
  (h w).mono fun _ w' => hQ w w'

theorem attempt {x : Run b α} (h : x.Obeys Q) : x.attempt.Obeys Q := h

section

variable (refl : ∀ w, Q w w)
include refl

theorem lift (c : Checked α) : (Run.lift c : Run b α).Obeys Q := fun w => yields_lift.mpr (refl w)

theorem update {f : Instance b → Checked (Instance b)}
    (h : ∀ w s, f w.inst = .ok s → Q w { w with inst := s }) : (Run.update f).Obeys Q := by
  intro w
  rw [yields_update]
  split
  · rename_i s hs
    exact h w s hs
  · exact refl w

end

theorem bind (trans : ∀ u v w, Q u v → Q v w → Q u w) {x : Run b α} {f : α → Run b β} (hx : x.Obeys Q)
    (hf : ∀ a, (f a).Obeys Q) : (x >>= f).Obeys Q := fun w =>
  (hx w).bind (fun a w' h => (hf a w').mono fun _ _ h' => trans _ _ _ h h') fun _ _ h => h

end Obeys

/-! ## Steps, ticks and resets -/

/-- A computation that may call the machine back. -/
abbrev Ticking (b : Blob) (α : Type) := Callbacks b → Run b α

/-- On every path `F` is made of finitely many steps of its own, which have the property `P`, ticks of nodes in
`J` and resets of nodes in `K`. -/
inductive MadeOf (P : {α : Type} → Run b α → Prop) (J K : Nat → Prop) : {α : Type} → Ticking b α → Prop
  | own {α : Type} {x : Run b α} : P x → MadeOf P J K fun _ => x
  | tick {c : Nat} : J c → MadeOf P J K fun cb => cb.tick c
  | reset {c : Nat} : K c → MadeOf P J K fun cb => cb.reset c
  | attempt {α : Type} {F : Ticking b α} : MadeOf P J K F → MadeOf P J K fun cb => (F cb).attempt
  | bind {α β : Type} {F : Ticking b α} {G : α → Ticking b β} : MadeOf P J K F → (∀ a, MadeOf P J K (G a)) →
      MadeOf P J K fun cb => F cb >>= fun a => G a cb

namespace MadeOf

variable {P P' : {α : Type} → Run b α → Prop} {J J' K K' : Nat → Prop} {F : Ticking b α} {cb cb' : Callbacks b}

theorem mono (h : MadeOf P J K F) (hP : ∀ {α : Type} (x : Run b α), P x → P' x) (hJ : ∀ c, J c → J' c)
    (hK : ∀ c, K c → K' c) : MadeOf P' J' K' F := by
  induction h with
  | own hx => exact .own (hP _ hx)
  | tick hc => exact .tick (hJ _ hc)
  | reset hc => exact .reset (hK _ hc)
  | attempt _ ih => exact .attempt ih
  | bind _ _ ihF ihG => exact .bind ihF ihG

/-- What couples the own steps with themselves, and the ticks and the resets pairwise, couples the whole. -/
theorem parametric {E : {α : Type} → Run b α → Run b α → Prop} (cb cb' : Callbacks b)
    (h : MadeOf (fun x => E x x) J K F)
    (attempt : ∀ {α : Type} {x y : Run b α}, E x y → E x.attempt y.attempt)
    (bind : ∀ {α β : Type} {x y : Run b α} {f g : α → Run b β}, E x y → (∀ a, E (f a) (g a)) →
      E (x >>= f) (y >>= g))
    (htick : ∀ c, J c → E (cb.tick c) (cb'.tick c)) (hreset : ∀ c, K c → E (cb.reset c) (cb'.reset c)) :
    E (F cb) (F cb') := by
  induction h with
  | own hx => exact hx
  | tick hc => exact htick _ hc
  | reset hc => exact hreset _ hc
  | attempt _ ih => exact attempt ih
  | bind _ _ ihF ihG => exact bind ihF ihG

theorem obeys {Q : World b → World b → Prop} (h : MadeOf (fun x => x.Obeys Q) J K F)
    (trans : ∀ u v w, Q u v → Q v w → Q u w) (htick : ∀ c, J c → (cb.tick c).Obeys Q)
    (hreset : ∀ c, K c → (cb.reset c).Obeys Q) : (F cb).Obeys Q :=
  parametric (E := fun x _ => x.Obeys Q) cb cb h Obeys.attempt (Obeys.bind trans) htick hreset

theorem relates {R : World b → World b → Prop} {fault : Fault → Prop}
    (h : MadeOf (fun x => Relates R fault x x) J K F)
    (htick : ∀ c, J c → Relates R fault (cb.tick c) (cb'.tick c))
    (hreset : ∀ c, K c → Relates R fault (cb.reset c) (cb'.reset c)) : Relates R fault (F cb) (F cb') :=
  parametric (E := fun x y => Relates R fault x y) cb cb' h Relates.attempt Relates.bind htick hreset

theorem inBounds (h : MadeOf (fun x => x.InBounds) J K F) (htick : ∀ c, J c → (cb.tick c).InBounds)
    (hreset : ∀ c, K c → (cb.reset c).InBounds) : (F cb).InBounds :=
  parametric (E := fun x _ => x.InBounds) cb cb h (fun {_ x _} _ w => .ok (x.exec w).1) FailsBy.bind htick hreset

end MadeOf

end Run

end BehaviorTree
