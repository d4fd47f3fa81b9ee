import BehaviorTree.Error

/-!
# Series of registrations

Of the registrations under a key the first that was accepted counts. A table that grows by one accepted
registration after the other is compared with what a list of all attempts says.
-/

namespace BehaviorTree

/-- An attempt to register a value under a key, and how it ended. -/
structure Attempt (κ : Type) (β : κ → Type) where
  key : κ
  value : β key
  answer : Except Error Unit

variable {κ : Type} {β : κ → Type} [DecidableEq κ]

/-- The value of the first accepted attempt under the key. -/
def firstAccepted (k : κ) : List (Attempt κ β) → Option (β k)
  | [] => none
  | a :: rest => if h : a.key = k ∧ a.answer.isOk then some (h.1 ▸ a.value) else firstAccepted k rest

variable {k k' : κ} {v : β k}

@[simp] theorem firstAccepted_nil : firstAccepted (β := β) k [] = none := rfl

theorem firstAccepted_append (as bs : List (Attempt κ β)) :
    firstAccepted k (as ++ bs) = (firstAccepted k as).or (firstAccepted k bs) := by
  induction as with
  | nil => rfl
  | cons a as ih =>
      rw [List.cons_append, firstAccepted, firstAccepted]
      split
      · rfl
      · exact ih

theorem firstAccepted_accepted (as : List (Attempt κ β)) :
    firstAccepted k (⟨k, v, .ok ()⟩ :: as) = some v := by
  rw [firstAccepted, dif_pos ⟨rfl, rfl⟩]

theorem firstAccepted_refused (e : Error) (as : List (Attempt κ β)) :
    firstAccepted k' (⟨k, v, .error e⟩ :: as) = firstAccepted k' as := by
  rw [firstAccepted, dif_neg fun h => Bool.false_ne_true h.2]

theorem firstAccepted_of_ne (hk : k ≠ k') (answer : Except Error Unit) (as : List (Attempt κ β)) :
    firstAccepted k' (⟨k, v, answer⟩ :: as) = firstAccepted k' as := by
  rw [firstAccepted, dif_neg fun h => hk h.1]

theorem firstAccepted_cons (a : Attempt κ β) (as : List (Attempt κ β)) :
    firstAccepted k (a :: as) = (firstAccepted k [a]).or (firstAccepted k as) :=
  firstAccepted_append [a] as

/-! ## How attempts end -/

/-- Each attempt ends as `P` says of what its key holds by then: what was accepted before, on top of `held`. -/
def Verdicts (P : (k : κ) → Option (β k) → Except Error Unit → Prop) (held : (k : κ) → Option (β k))
    (as : List (Attempt κ β)) : Prop :=
  ∀ (n : Nat) (a : Attempt κ β), as[n]? = some a →
    P a.key ((held a.key).or (firstAccepted a.key (as.take n))) a.answer

namespace Verdicts

variable {P : (k : κ) → Option (β k) → Except Error Unit → Prop} {held held' : (k : κ) → Option (β k)}
  {as bs : List (Attempt κ β)}

theorem nil : Verdicts P held [] := fun _ _ h => by cases h

theorem singleton {a : Attempt κ β} (h : P a.key (held a.key) a.answer) : Verdicts P held [a] := by
  intro n a' ha'
  cases n with
  | zero =>
      cases ha'
      simpa using h
  | succ n => simp at ha'

theorem append (has : Verdicts P held as) (hheld : ∀ k, held' k = (held k).or (firstAccepted k as))
    (hbs : Verdicts P held' bs) : Verdicts P held (as ++ bs) := by
  intro n a ha
  rcases Nat.lt_or_ge n as.length with hn | hn
  · rw [List.getElem?_append_left hn] at ha
    rw [List.take_append_of_le_length (Nat.le_of_lt hn)]
    exact has n a ha
  · rw [List.getElem?_append_right hn] at ha
    rw [List.take_append, List.take_of_length_le hn, firstAccepted_append, ← Option.or_assoc, ← hheld]
    exact hbs _ a ha

end Verdicts

end BehaviorTree
