import BehaviorTree.Proofs.Instance.Memory
import BehaviorTree.Proofs.Library.Running
import BehaviorTree.Proofs.Library.Steps

/-!
# Calls stay in their subtree

Whatever state a tree is in and however a call on one of its nodes ends, nothing changes outside the subtree
of that node. A tick keeps a contract that asks for nothing, and what is left of that is its frame.
-/

namespace BehaviorTree

open Library Run

variable {b : Blob} {m : Machine} {i : Nat} {α : Type}

/-- From every world, `x` changes cells in the subtree of node `i` only. -/
def Run.Confined (i : Nat) (x : Run b α) : Prop :=
  x.Obeys fun w w' => w.inst.Frame (Within i (b.stop i)) w'.inst

theorem Instance.Frame.child {c : Nat} (hi : i < b.size) (hc : c ∈ b.childList i) {s s' : Instance b}
    (h : s.Frame (Within c (b.stop c)) s') : s.Frame (Within i (b.stop i)) s' := by
  obtain ⟨hlt, -, hle⟩ := Blob.lt_of_mem_childList hi hc
  exact h.widen (Nat.le_of_lt hlt) hle

/-! ## Tick functions -/

def Contract.anything (b : Blob) : Contract b where
  data _ _ := True
  fresh _ _ := True
  ready _ _ := True
  holds _ _ := True
  fault _ := True
  data_defaults _ _ := trivial
  ready_of_cells _ _ _ := trivial
  holds_of_cells _ _ _ := trivial
  holds_of_quiet _ _ := trivial

theorem Contract.on_anything (s : Instance b) (lo hi : Nat) : (anything b).On s lo hi :=
  fun _ _ => ⟨trivial, trivial⟩

theorem Library.ownSteps_confined (hi : i < b.size) : OwnSteps (fun x : Run b _ => x.Confined i) i where
  pure _ w := Instance.Frame.refl _ w.inst
  abort c hc w := (abortOne_kept (Blob.lt_size_of_mem_childList hi hc) w
    (Contract.on_anything _ _ _)).mono fun _ _ h => h.2.1.child hi hc
  readStatus k w := (readStatus_only i k w).mono fun _ _ h => by
    rw [h]
    exact Instance.Frame.refl _ _
  writeStatus k st w := (writeStatus_own i k st w).mono fun _ _ h => h.toFrame.subtree hi
  readHead w := (readHead_yields hi .repeatData).mpr (Instance.Frame.refl _ w.inst)
  writeHead d w := (writeHead_own .repeatData ⟨2, rfl⟩ i d w).mono fun _ _ h => h.toFrame.subtree hi
  noRunningChild w := Instance.Frame.refl _ w.inst
  missingChild w := Instance.Frame.refl _ w.inst

theorem Behavior.IsStandard.tick_confined {bh : Behavior} (h : bh.IsStandard) (hi : i < b.size)
    (rs : Registries) {cb : Callbacks b} (htick : ∀ c ∈ b.childList i, (cb.tick c).Confined c) :
    (bh.tick rs cb i).Confined i := by
  by_cases hc : bh ∈ composites
  · refine ((ownSteps_confined hi).composite hi hc rs).obeys (fun _ _ _ => Instance.Frame.trans) (fun c hc => ?_)
      fun _ => False.elim
    exact (htick c hc).mono fun w w' hf => hf.child hi hc
  · exact fun w => ((h.isLeaf hc).tick rs cb i w).mono fun _ _ hown => hown.toFrame.subtree hi

/-! ## Calls -/

theorem Machine.Standard.upholds_anything (hm : m.Standard) : (Contract.anything b).Upheld m where
  unknown _ _ _ _ := trivial
  tooDeep _ _ := trivial
  untraced _ _ _ _ _ := trivial
  reset i hi bh hbh w _ := ((hm.behaviorAt hbh).reset_ownData hi w).mono fun r w' h =>
    ⟨h, trivial, by cases r <;> trivial⟩
  start _ _ _ _ _ _ _ := ⟨trivial, fun _ => trivial⟩
  resume _ _ _ _ _ := trivial
  tick i hi bh hbh cb htick w _ _ _ := by
    have hchild : ∀ c ∈ b.childList i, (cb.tick c).Confined c := fun c hc w =>
      (htick c hc w (Contract.on_anything _ _ _)).mono fun _ _ h => h.1
    refine ((hm.behaviorAt hbh).tick_confined hi m.registries hchild w).mono fun r w' h => ?_
    refine ⟨h, Contract.on_anything _ _ _, trivial, ?_⟩
    cases r with
    | ok st => exact fun _ _ _ => trivial
    | error e => trivial

theorem Machine.Standard.tick_confined (hm : m.Standard) (hi : i < b.size) : (m.tick i : Run b Status).Confined i := by
  intro w
  rw [Machine.tick, yields_bind, yields_inst]
  exact (hm.upholds_anything.tickWithin_kept _ i hi w (Contract.on_anything _ _ _)).mono fun _ _ h => h.1

theorem Machine.Standard.reset_confined (hm : m.Standard) (hi : i < b.size) : (m.reset i : Run b Unit).Confined i := by
  intro w
  have hfor : (Contract.anything b).Forgives i := fun _ _ _ _ _ _ => trivial
  exact (hm.upholds_anything.resetTree hfor hi w (Contract.on_anything _ _ _)).mono fun _ _ h => h.1

theorem Machine.abort_clears (hi : i < b.size) (w : World b) : (Machine.abort i).Yields w fun r w' =>
    r = .ok () ∧ w.inst.Clears i (b.stop i) w'.inst ∧ w'.inst.data = w.inst.data ∧ w'.board = w.board := by
  obtain ⟨s', hs', hc⟩ := w.inst.clearStates_clears (Nat.le_of_lt (Blob.lt_stop hi)) (Blob.stop_le hi)
  rw [Machine.abort, if_neg (Nat.not_le.mpr hi), clearSubtree, Blob.endOf_eq hi]
  simp only [yields_bind, yields_lift, yields_update, hs', true_and, and_true]
  exact ⟨hc, Instance.clearStates_data hs'⟩

/-- The recorded results and the bytes of all nodes but those from `lo` to before `hi` are the same, and so
is the tick counter. -/
structure Instance.SameBut (lo hi : Nat) (s s' : Instance b) : Prop where
  state : ∀ j, ¬ Within lo hi j → s'.state j = s.state j
  bytes : ∀ j, ¬ Within lo hi j → s'.bytes j = s.bytes j
  tick : s'.tick = s.tick

theorem Instance.Frame.sameBut {lo hi : Nat} {s s' : Instance b} (h : s.Frame (Within lo hi) s') :
    s.SameBut lo hi s' where
  state j hj := by
    rcases Nat.lt_or_ge j b.size with hlt | hle
    · rw [state_eq s' hlt, state_eq s hlt, h.cell j hj]
    · rw [Instance.state, Instance.state, Vector.getElem?_eq_none hle, Vector.getElem?_eq_none hle]
  bytes j hj := by
    rcases Nat.lt_or_ge j b.size with hlt | hle
    · rw [bytes_eq s' hlt, bytes_eq s hlt, h.cell j hj]
    · rw [bytes_of_le s' hle, bytes_of_le s hle]
  tick := h.tick

/-- Ticks, resets and aborts of node `i`, whether they fail or not, change nothing outside its subtree. An
abort changes no data and leaves the subtree inactive. -/
theorem subtree_confined (hm : m.Standard) (hi : i < b.size) (w : World b) :
    ∃ stop, b.endOf i = .ok stop ∧
      w.inst.SameBut i stop ((m.tick i).exec w).2.inst ∧
      w.inst.SameBut i stop ((m.reset i).exec w).2.inst ∧
      ∃ s', (Machine.abort i).exec w = (.ok (), ⟨s', w.board⟩) ∧ w.inst.SameBut i stop s' ∧
        s'.data = w.inst.data ∧ ∀ j, Within i stop j → s'.state j = .ok none := by
  refine ⟨b.stop i, Blob.endOf_eq hi, (hm.tick_confined hi w).sameBut, (hm.reset_confined hi w).sameBut, ?_⟩
  obtain ⟨hok, hclear, hdata, hboard⟩ := Machine.abort_clears hi w
  refine ⟨((Machine.abort i).exec w).2.inst, ?_, hclear.frame.sameBut, hdata, fun j hj => ?_⟩
  · rw [← hboard, ← hok]
  · rw [Instance.state_eq _ (Nat.lt_of_lt_of_le hj.2 (Blob.stop_le hi)), hclear.inside j hj.1 hj.2]

theorem subtree_confined_busySequence :
    let s := Instance.new .busySequence
    let s' := ((Machine.ofLibrary.tick 1).exec ⟨s, .empty⟩).2.inst
    s.SameBut 1 2 s' ∧ s'.state 1 = .ok (some .running) := by
  obtain ⟨stop, hstop, htick, -⟩ := subtree_confined (i := 1) Machine.Standard.ofLibrary (by decide)
    ⟨Instance.new .busySequence, .empty⟩
  cases hstop
  exact ⟨htick, rfl⟩

end BehaviorTree
