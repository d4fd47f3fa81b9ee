import BehaviorTree.Error

/-! # Successful checked computations, step by step -/

namespace BehaviorTree

namespace Checked

variable {α β : Type}

@[simp] theorem ok_bind (a : α) (f : α → Checked β) : ((.ok a : Checked α) >>= f) = f a := rfl

@[simp] theorem error_bind (e : Fault) (f : α → Checked β) :
    ((.error e : Checked α) >>= f) = .error e := rfl

@[simp] theorem throw_eq (e : Fault) : (throw e : Checked α) = .error e := rfl

@[simp] theorem pure_eq (a : α) : (pure a : Checked α) = .ok a := rfl

@[simp] theorem ofExcept_ok (a : α) : ofExcept (.ok a) = .ok a := rfl

@[simp] theorem ofExcept_error (e : Error) :
    (ofExcept (.error e) : Checked α) = .error (.error e) := rfl

theorem ofExcept_eq_ok {x : Except Error α} {a : α} : ofExcept x = .ok a ↔ x = .ok a := by
  cases x with
  | ok a => simp
  | error e => simp

theorem ofBoard_eq_ok {x : Except BoardError α} {a : α} : ofBoard x = .ok a ↔ x = .ok a := by
  cases x with
  | ok a => simp [ofBoard]
  | error e => simp [ofBoard, fail]

theorem bind_eq_ok {ε : Type} {x : Except ε α} {f : α → Except ε β} {c : β} :
    (x >>= f) = .ok c ↔ ∃ a, x = .ok a ∧ f a = .ok c := by
  cases x with
  | ok a => simp [bind, Except.bind]
  | error e => simp [bind, Except.bind]

theorem bind_unit_eq_ok {x : Checked Unit} {f : Unit → Checked β} {c : β} :
    (x >>= f) = .ok c ↔ x = .ok () ∧ f () = .ok c := by
  cases x with
  | ok a => simp
  | error e => simp

theorem map_eq_error {f : α → β} {x : Checked α} {e : Fault} : x.map f = .error e ↔ x = .error e := by
  cases x with
  | ok a => simp [Except.map]
  | error e => simp [Except.map]

theorem forM_eq_ok {f : α → Checked Unit} {xs : List α} :
    xs.forM f = .ok () ↔ ∀ x ∈ xs, f x = .ok () := by
  induction xs with
  | nil => simp
  | cons x xs ih =>
      rw [List.forM_eq_forM] at ih
      rw [List.forM_eq_forM, List.forM_cons, bind_unit_eq_ok, List.forall_mem_cons, ← ih]

end Checked

/-! ## Optional results along a list -/

section

variable {α β : Type} {f : α → Option β}

theorem mapM_eq_some {g : α → β} {xs : List α} (h : ∀ x ∈ xs, f x = some (g x)) :
    xs.mapM f = some (xs.map g) := by
  induction xs with
  | nil => rfl
  | cons x xs ih =>
      rw [List.forall_mem_cons] at h
      rw [List.mapM_cons, h.1, ih h.2]
      rfl

theorem length_of_mapM : ∀ {xs : List α} {ys : List β}, xs.mapM f = some ys → ys.length = xs.length
  | [], _, h => by
      cases h
      rfl
  | x :: xs, ys, h => by
      rw [List.mapM_cons] at h
      obtain ⟨z, hz, h⟩ := Option.bind_eq_some_iff.mp h
      obtain ⟨zs, hzs, h⟩ := Option.bind_eq_some_iff.mp h
      cases h
      exact congrArg Nat.succ (length_of_mapM hzs)

theorem mem_of_mapM : ∀ {xs : List α} {ys : List β}, xs.mapM f = some ys →
    ∀ y ∈ ys, ∃ x ∈ xs, f x = some y
  | [], _, h, y, hy => by
      cases h
      cases hy
  | x :: xs, ys, h, y, hy => by
      rw [List.mapM_cons] at h
      obtain ⟨z, hz, h⟩ := Option.bind_eq_some_iff.mp h
      obtain ⟨zs, hzs, h⟩ := Option.bind_eq_some_iff.mp h
      cases h
      rcases List.mem_cons.mp hy with rfl | hy
      · exact ⟨x, List.mem_cons_self, hz⟩
      · obtain ⟨x', hx', hfx'⟩ := mem_of_mapM hzs y hy
        exact ⟨x', List.mem_cons_of_mem x hx', hfx'⟩

end

end BehaviorTree
