import BehaviorTree.Blob.Layout
import BehaviorTree.Proofs.Checked

/-!
# Failures of a known kind

`x.FailsBy P`: if `x` fails, then for a cause in `P`. The case that matters most is a computation that
stays inside its arrays: it may report an error, but reads nothing out of bounds.
-/

namespace BehaviorTree

namespace Checked

variable {α β : Type} {P : Fault → Prop}

def FailsBy (P : Fault → Prop) (x : Checked α) : Prop := ∀ e, x = .error e → P e

namespace FailsBy

theorem ok (a : α) : FailsBy P (.ok a) := fun _ h => by cases h

theorem error {e : Fault} (h : P e) : FailsBy P (.error e : Checked α) := by
  rintro _ ⟨⟩
  exact h

theorem bind {x : Checked α} {f : α → Checked β} (hx : x.FailsBy P) (hf : ∀ a, x = .ok a → (f a).FailsBy P) :
    (x >>= f).FailsBy P := by
  cases x with
  | ok a => exact hf a rfl
  | error e =>
      rintro _ ⟨⟩
      exact hx e rfl

theorem ite {p : Prop} [Decidable p] {x y : Checked α} (hx : p → x.FailsBy P) (hy : ¬ p → y.FailsBy P) :
    (if p then x else y).FailsBy P := by
  by_cases h : p
  · rw [if_pos h]
    exact hx h
  · rw [if_neg h]
    exact hy h

/-- A check that throws, and what follows it. -/
theorem guard {p : Prop} [Decidable p] {e : Fault} {k : β → Checked α} {y : Checked α} (he : P e)
    (hy : ¬ p → y.FailsBy P) : (if p then throw e >>= k else y).FailsBy P :=
  ite (fun _ => error he) hy

theorem ofExcept {x : Except Error α} (h : ∀ e, x = .error e → P (.error e)) : (Checked.ofExcept x).FailsBy P := by
  cases x with
  | ok a => exact ok a
  | error e => exact error (h e rfl)

theorem ofBoard {x : Except BoardError α} (h : ∀ e, x = .error e → P (.error (.board e))) :
    (Checked.ofBoard x).FailsBy P := by
  cases x with
  | ok a => exact ok a
  | error e => exact error (h e rfl)

theorem forM {f : α → Checked Unit} : ∀ {xs : List α}, (∀ x ∈ xs, (f x).FailsBy P) → FailsBy P (xs.forM f)
  | [], _ => ok ()
  | x :: xs, h => by
      rw [List.forall_mem_cons] at h
      rw [List.forM_eq_forM, List.forM_cons]
      exact h.1.bind fun _ _ => forM h.2

theorem foldlM {f : β → α → Checked β} : ∀ {xs : List α} {b : β}, (∀ b, ∀ x ∈ xs, (f b x).FailsBy P) →
    FailsBy P (xs.foldlM f b)
  | [], b, _ => ok b
  | x :: xs, b, h => by
      rw [List.foldlM_cons]
      exact (h b x List.mem_cons_self).bind fun b' _ =>
        foldlM fun c y hy => h c y (List.mem_cons_of_mem _ hy)

end FailsBy

/-- Nothing outside an array is read. -/
def InBounds (x : Checked α) : Prop := x.FailsBy (· ≠ .outOfBounds)

theorem inBounds_iff {x : Checked α} : x.InBounds ↔ x ≠ .error .outOfBounds :=
  ⟨fun h hx => h _ hx rfl, fun h _ he hout => h (hout ▸ he)⟩

namespace InBounds

theorem of_eq_ok {x : Checked α} {a : α} (h : x = .ok a) : x.InBounds := h ▸ FailsBy.ok a

theorem fail (e : Error) : InBounds (Checked.fail e : Checked α) := FailsBy.error nofun

theorem ofExcept (x : Except Error α) : InBounds (Checked.ofExcept x) := FailsBy.ofExcept fun _ _ => nofun

theorem ofBoard (x : Except BoardError α) : InBounds (Checked.ofBoard x) := FailsBy.ofBoard fun _ _ => nofun

end InBounds

end Checked

theorem Defect.fault_ne_outOfBounds (d : Defect) : d.fault ≠ .outOfBounds := nofun

end BehaviorTree
