import BehaviorTree.Proofs.Bounds
import BehaviorTree.Proofs.Run.Access

/-!
# Computations that stay inside their arrays

Whatever the data and the results of the nodes are, the operations on a node of the tree read and write
inside its arrays. A span in node data is checked against the size of the data, and the sizes were checked
against the words when the blob was made.
-/

namespace BehaviorTree

open Checked (InBounds)

/-! ## Reading a blob -/

namespace Layout

theorem slice_inBounds {l : Layout} {start len : Nat} (h : start + len ≤ l.regionSize) :
    (l.slice start len).InBounds := by
  rw [slice, if_pos h]
  exact .ok _

end Layout

namespace Blob

variable {b : Blob} {i : Nat}

theorem defaultValue_inBounds (hi : i < b.size) (t : ValueType) : (b.defaultValue t i).InBounds := by
  have hspan := offset_add_extent_le hi
  rw [Layout.defaultValue, sizeOf_eq hi, Checked.ok_bind]
  refine .ite (fun _ => InBounds.fail _) fun _ => .ite (fun _ => InBounds.fail _) fun hsize => ?_
  rw [offsetOf_eq hi, Checked.ok_bind]
  exact Layout.slice_inBounds (by omega)

theorem depthsFrom_eq (b : Blob) : ∀ {count i : Nat} (opened : List Nat), i + count ≤ b.size →
    ∃ ds, b.depthsFrom count i opened = .ok ds ∧ ds.length = count
  | 0, _, _, _ => ⟨[], rfl, rfl⟩
  | count + 1, i, opened, h => by
      obtain ⟨ds, hds, hlen⟩ := depthsFrom_eq b (b.stop i :: opened.dropWhile (· ≤ i))
        (show i + 1 + count ≤ b.size by omega)
      refine ⟨(opened.dropWhile (· ≤ i)).length :: ds, ?_, congrArg Nat.succ hlen⟩
      rw [Layout.depthsFrom, endOf_eq (by omega), Checked.ok_bind, hds]
      rfl

end Blob

/-! ## Instances -/

namespace Buffer

variable {n start : Nat}

theorem slice_inBounds (buf : Buffer n) {len : Nat} (h : start + len ≤ n) : (buf.slice start len).InBounds :=
  let ⟨_, he⟩ := slice_eq buf h
  .of_eq_ok he

theorem overwrite_inBounds (buf : Buffer n) {bs : List UInt8} (h : start + bs.length ≤ n) :
    (buf.overwrite start bs).InBounds :=
  let ⟨_, he, _⟩ := overwrite_eq buf start bs h
  .of_eq_ok he

end Buffer

namespace Instance

variable {b : Blob} {i o len start : Nat}

theorem locate_of_le (s : Instance b) (hi : b.size ≤ i) (o len : Nat) :
    s.locate i o len = Checked.fail (.nodeOutOfRange i b.size) := by
  rw [locate, if_pos hi]

theorem locate_inBounds (s : Instance b) (i o len : Nat) : (s.locate i o len).InBounds := by
  rcases Nat.lt_or_ge i b.size with hi | hi
  · rw [locate_eq s hi]
    exact .ite (fun _ => InBounds.fail _) fun _ => .ite (fun _ => InBounds.fail _) fun _ => .ok _
  · rw [locate_of_le s hi]
    exact .fail _

/-- A place that was found lies in the memory. -/
theorem le_of_locate {s : Instance b} (h : s.locate i o len = .ok start) : start + len ≤ b.regionSize := by
  rcases Nat.lt_or_ge i b.size with hi | hi
  · have hspan := Blob.offset_add_extent_le hi
    rw [locate_eq s hi, length_bytes_cell s hi] at h
    split at h
    · cases h
    split at h
    · cases h
    · cases h
      omega
  · rw [locate_of_le s hi] at h
    cases h

theorem eq_of_locate {s : Instance b} (h : s.locate i o len = .ok start) : start = b.offset i + o := by
  rcases Nat.lt_or_ge i b.size with hi | hi
  · rw [locate_eq s hi] at h
    split at h
    · cases h
    split at h
    · cases h
    · cases h
      rfl
  · rw [locate_of_le s hi] at h
    cases h

theorem readAt_inBounds (s : Instance b) (t : ValueType) (i o : Nat) : (s.readAt t i o).InBounds :=
  (s.locate_inBounds i o t.size).bind fun _ h => s.data.slice_inBounds (le_of_locate h)

theorem place_inBounds (s : Instance b) (t : ValueType) (i o : Nat) (a : Address) : (s.place t i o a).InBounds :=
  (s.locate_inBounds i o t.size).bind fun _ _ =>
    .ite (fun _ => InBounds.fail _) fun _ => .ite (fun _ => InBounds.fail _) fun _ => .ok _

theorem le_of_place {s : Instance b} {t : ValueType} {a : Address} (h : s.place t i o a = .ok start) :
    start + t.size ≤ b.regionSize := by
  obtain ⟨start', hlocate, h⟩ := Checked.bind_eq_ok.mp h
  split at h
  · cases h
  split at h
  · cases h
  · cases h
    exact le_of_locate hlocate

theorem writeAt_inBounds (s : Instance b) {t : ValueType} (i o : Nat) (v : t.Value) (a : Address) :
    (s.writeAt i o v a).InBounds := by
  refine (s.place_inBounds t i o a).bind fun start h => ?_
  have hle : start + v.1.length ≤ b.regionSize := by
    rw [v.2]
    exact le_of_place h
  exact (s.data.overwrite_inBounds hle).bind fun _ _ => .ok _

variable (s : Instance b) (hi : i < b.size)
include hi

theorem state_inBounds : (s.state i).InBounds := .of_eq_ok (state_eq s hi)

theorem restore_inBounds : (s.restore i).InBounds :=
  let ⟨_, he, _⟩ := restore_sets s hi
  .of_eq_ok he

theorem fill_inBounds (byte : UInt8) : (s.fill i byte).InBounds :=
  let ⟨_, he, _⟩ := fill_sets s hi byte
  .of_eq_ok he

theorem setState_inBounds (r : Status) : (s.setState i r).InBounds :=
  let ⟨_, he, _⟩ := setState_sets s hi r
  .of_eq_ok he

theorem clearStates_inBounds : (s.clearStates i (b.stop i)).InBounds :=
  let ⟨_, he, _⟩ := clearStates_clears s (Nat.le_of_lt (Blob.lt_stop hi)) (Blob.stop_le hi)
  .of_eq_ok he

theorem resetSubtree_inBounds : (s.resetSubtree i).InBounds :=
  let ⟨_, he, _⟩ := resetSubtree_renews s hi
  .of_eq_ok he

end Instance

namespace Variable

variable {b : Blob}

theorem payload_inBounds {α : Type} (v : Variable) (i : Nat) (s : Instance b) (p : PlainData α) :
    (Strategy.payload v i s p).InBounds :=
  (InBounds.ofExcept _).bind fun _ _ => (s.readAt_inBounds _ _ _).bind fun _ _ => .ok _

theorem read_inBounds (v : Variable) (rs : Registries) (t : ValueType) (i : Nat) (s : Instance b)
    (bb : Blackboard) : (v.read rs t i s bb).InBounds := by
  refine (InBounds.ofExcept _).bind fun st _ => ?_
  cases st with
  | constant => exact (InBounds.ofExcept _).bind fun _ _ => s.readAt_inBounds _ _ _
  | blackboard => exact (v.payload_inBounds i s _).bind fun _ _ => InBounds.ofBoard _
  | node => exact (v.payload_inBounds i s _).bind fun _ _ => s.readAt_inBounds _ _ _
  | component c field mode => exact (InBounds.ofBoard _).bind fun _ _ => .ok _

end Variable

/-! ## Runs -/

namespace Run

variable {b : Blob} {α β : Type} {P : Fault → Prop} {i k : Nat}

/-- Wherever it starts, a failure has a cause in `P`. -/
def FailsBy (P : Fault → Prop) (x : Run b α) : Prop := ∀ w, x.Yields w fun r _ => Checked.FailsBy P r

namespace FailsBy

theorem pure (a : α) : FailsBy P (pure a : Run b α) := fun _ => .ok a

theorem lift {c : Checked α} (h : c.FailsBy P) : FailsBy P (lift c : Run b α) := fun _ => yields_lift.mpr h

theorem bind {x : Run b α} {f : α → Run b β} (hx : x.FailsBy P) (hf : ∀ a, (f a).FailsBy P) :
    (x >>= f).FailsBy P := fun w =>
  (hx w).bind (fun a w' _ => hf a w') fun e _ h => .error (h e rfl)

theorem lift_bind {c : Checked α} {f : α → Run b β} (hc : c.FailsBy P) (hf : ∀ a, c = .ok a → (f a).FailsBy P) :
    (Run.lift c >>= f).FailsBy P := by
  cases c with
  | ok a => exact hf a rfl
  | error e => exact fun _ => .error (hc e rfl)

theorem update {f : Instance b → Checked (Instance b)} (h : ∀ s, (f s).FailsBy P) : FailsBy P (update f) := by
  intro w
  rw [yields_update]
  have hf := h w.inst
  cases hfw : f w.inst with
  | ok s => exact .ok ()
  | error e => exact .error (hf e hfw)

theorem ofInst {f : Instance b → Run b α} (hf : ∀ s, (f s).FailsBy P) : (inst >>= f).FailsBy P := fun w =>
  hf w.inst w

theorem ofBoard {f : Blackboard → Run b α} (hf : ∀ bb, (f bb).FailsBy P) : (board >>= f).FailsBy P := fun w =>
  hf w.board w

theorem setInst (s : Instance b) : FailsBy P (setInst s) := fun _ => .ok ()

theorem setBoard (bb : Blackboard) : FailsBy P (setBoard bb : Run b Unit) := fun _ => .ok ()

/-- What follows an attempt knows the cause of the failure. -/
theorem attempt {x : Run b α} {f : Except Fault α → Run b β} (hx : x.FailsBy P)
    (hf : ∀ r : Except Fault α, Checked.FailsBy P r → (f r).FailsBy P) : (x.attempt >>= f).FailsBy P := by
  intro w
  rw [yields_bind, yields_attempt]
  exact (hx w).mono fun r w' h => hf r h w'

theorem ite {p : Prop} [Decidable p] {x y : Run b α} (hx : p → x.FailsBy P) (hy : ¬ p → y.FailsBy P) :
    (if p then x else y).FailsBy P := by
  by_cases h : p
  · rw [if_pos h]
    exact hx h
  · rw [if_neg h]
    exact hy h

theorem forM {f : α → Run b Unit} : ∀ {xs : List α}, (∀ x ∈ xs, (f x).FailsBy P) → FailsBy P (xs.forM f)
  | [], _ => pure ()
  | x :: xs, h => by
      rw [List.forall_mem_cons] at h
      rw [List.forM_eq_forM, List.forM_cons]
      exact h.1.bind fun _ => forM h.2

end FailsBy

/-- Wherever it starts, nothing outside an array is read or written. -/
def InBounds (x : Run b α) : Prop := x.FailsBy (· ≠ .outOfBounds)

theorem InBounds.exec {x : Run b α} (h : x.InBounds) (w : World b) : (x.exec w).1 ≠ .error .outOfBounds :=
  Checked.inBounds_iff.mp (h w)

theorem fail_inBounds (e : Error) : (fail e : Run b α).InBounds := fun _ => InBounds.fail e

theorem readHead_inBounds (p : PlainData α) (i : Nat) : (readHead p i : Run b α).InBounds :=
  .ofInst fun s => .bind (.lift (s.readAt_inBounds _ _ _)) fun _ => .pure _

theorem writeHead_inBounds (p : PlainData α) (i : Nat) (a : α) : (writeHead p i a : Run b Unit).InBounds :=
  .update fun s => s.writeAt_inBounds _ _ _ _

theorem readStatus_inBounds (i k : Nat) : (readStatus i k : Run b Status).InBounds :=
  .ofInst fun s => .bind (.lift (s.readAt_inBounds _ _ _)) fun _ => .lift (InBounds.ofExcept _)

theorem writeStatus_inBounds (i k : Nat) (r : Status) : (writeStatus i k r : Run b Unit).InBounds :=
  .update fun s => s.writeAt_inBounds _ _ _ _

theorem clearSubtree_inBounds (hi : i < b.size) : (clearSubtree i : Run b Unit).InBounds := by
  rw [clearSubtree, Blob.endOf_eq hi]
  exact .update fun s => s.clearStates_inBounds hi

theorem emit_inBounds (i : Nat) (event : NodeEvent) : (emit i event : Run b Unit).InBounds :=
  .ofBoard fun _ => .ofInst fun _ => .bind (.setBoard _) fun _ => .lift (InBounds.ofBoard _)

end Run

end BehaviorTree
