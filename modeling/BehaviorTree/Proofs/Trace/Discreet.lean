import BehaviorTree.Proofs.Library.Running
import BehaviorTree.Proofs.Trace.Records

/-!
# Behaviors that leave the trace alone

No function of the library touches the blackboard: a timer only reads it. The leaves of a host may write it,
but discreet ones leave the trace keys alone.
-/

namespace BehaviorTree

open Library Run

variable {b : Blob} {m : Machine}

namespace Run

/-- Whatever it does to the instance, the blackboard stays the same. -/
def KeepsBoard {α : Type} (x : Run b α) : Prop := ∀ w, x.Yields w fun _ w' => w'.board = w.board

namespace KeepsBoard

variable {α β : Type}

theorem pure (a : α) : KeepsBoard (pure a : Run b α) := fun _ => rfl

theorem bind {x : Run b α} {f : α → Run b β} (hx : x.KeepsBoard) (hf : ∀ a, (f a).KeepsBoard) :
    (x >>= f).KeepsBoard := fun w =>
  (hx w).bind (fun a w' h => (hf a w').mono fun _ _ h' => h'.trans h) fun _ _ h => h

theorem lift (c : Checked α) : KeepsBoard (lift c : Run b α) := fun _ => yields_lift.mpr rfl

theorem update (f : Instance b → Checked (Instance b)) : KeepsBoard (update f) := fun w => by
  rw [yields_update]
  cases f w.inst <;> rfl

theorem readHead (p : PlainData α) (i : Nat) : KeepsBoard (readHead p i : Run b α) := fun w =>
  (lift (w.inst.readAt p.type i 0)).bind (fun _ => .pure _) w

theorem readStatus (i k : Nat) : KeepsBoard (readStatus i k : Run b Status) := fun w =>
  (lift (w.inst.readAt PlainData.u8.type i k)).bind (fun _ => .lift _) w

theorem readSingle (rs : Registries) (v : Variable) (i : Nat) : KeepsBoard (readSingle rs v i : Run b Single) :=
  fun w => (lift (v.read rs PlainData.f32.type i w.inst w.board)).bind (fun _ => .pure _) w

theorem spares {x : Run b α} (h : x.KeepsBoard) (w : World b) :
    x.Yields w fun _ w' => w.board.SparesTrace w'.board :=
  (h w).mono fun _ _ hw => hw ▸ .refl _

end KeepsBoard

end Run

namespace Library

theorem fixed_keepsBoard (rs : Registries) (cb : Callbacks b) (i : Nat) :
    (fixed.tick rs cb i).KeepsBoard := .readStatus i 0

theorem delay_keepsBoard (rs : Registries) (cb : Callbacks b) (i : Nat) :
    (delay.tick rs cb i).KeepsBoard :=
  (KeepsBoard.readHead _ i).bind fun _ => (KeepsBoard.readSingle rs _ i).bind fun _ =>
    (KeepsBoard.readSingle rs _ i).bind fun _ => (KeepsBoard.update _).bind fun _ => .pure _

theorem countResult_keepsBoard (i : Nat) (st : Status) : (countResult i st : Run b Status).KeepsBoard :=
  (KeepsBoard.readHead _ i).bind fun _ => (KeepsBoard.update _).bind fun _ => .pure _

theorem reset_keepsBoard {x : TypeId × Behavior} (hx : x ∈ Library.behaviors) (i : Nat) :
    (x.2.reset i : Run b Unit).KeepsBoard := by
  by_cases hp : x.2 = parallel
  · rw [hp]
    exact .update _
  · rw [reset_of_ne hx hp]
    exact .pure ()

end Library

/-- A leaf that leaves the trace keys alone. -/
structure Behavior.IsDiscreet (bh : Behavior) : Prop extends bh.IsLeaf where
  reset_spares : ∀ {b : Blob} (i : Nat) (w : World b),
    (bh.reset i).Yields w fun _ w' => w.board.SparesTrace w'.board
  tick_spares : ∀ {b : Blob} (rs : Registries) (cb : Callbacks b) (i : Nat) (w : World b),
    (bh.tick rs cb i).Yields w fun _ w' => w.board.SparesTrace w'.board

/-- The behaviors of the machine are those of the library and discreet leaves. -/
def Machine.Discreet (m : Machine) : Prop :=
  ∀ id bh, m.behavior? id = some bh → bh ∈ Library.behaviors.map (·.2) ∨ bh.IsDiscreet

namespace Machine.Discreet

theorem standard (hm : m.Discreet) : m.Standard :=
  fun id bh h => (hm id bh h).imp_right Behavior.IsDiscreet.toIsLeaf

theorem ofLibrary : Machine.ofLibrary.Discreet :=
  registerLibrary_induction (fun _ _ h => by cases behavior?_empty.symm.trans h) fun _ hx =>
    Or.inl (List.mem_map_of_mem hx)

theorem reset_spares (hm : m.Discreet) {i : Nat} {bh : Behavior} (hbh : m.behaviorAt b i = .ok bh) (w : World b) :
    (bh.reset i).Yields w fun _ w' => w.board.SparesTrace w'.board := by
  obtain ⟨id, -, hid⟩ := behaviorAt_eq_ok hbh
  rcases hm id bh hid with hlib | hleaf
  · obtain ⟨x, hx, rfl⟩ := List.mem_map.mp hlib
    exact (reset_keepsBoard hx i).spares w
  · exact hleaf.reset_spares i w

theorem tick_spares (hm : m.Discreet) {i : Nat} {bh : Behavior} (hbh : m.behaviorAt b i = .ok bh)
    (hc : bh ∉ composites) (cb : Callbacks b) (w : World b) :
    (bh.tick m.registries cb i).Yields w fun _ w' => w.board.SparesTrace w'.board := by
  obtain ⟨id, -, hid⟩ := behaviorAt_eq_ok hbh
  rcases hm id bh hid with hlib | hleaf
  · obtain ⟨x, hx, rfl⟩ := List.mem_map.mp hlib
    rcases leaf_cases hx hc with rfl | rfl
    · exact (fixed_keepsBoard m.registries cb i).spares w
    · exact (delay_keepsBoard m.registries cb i).spares w
  · exact hleaf.tick_spares m.registries cb i w

/-- What every tree of the machine keeps. -/
abbrev contract (hm : m.Discreet) (b : Blob) : Contract b := (Typing.any b hm.standard).contract

end Machine.Discreet

end BehaviorTree
