import BehaviorTree.Proofs.Machine.Contract

/-!
# Ticks keep contracts

A tick prepares its node, runs the tick function one level deeper, records the result and traces it. Up
to the trace it is called settling here.
-/

namespace BehaviorTree

variable {b : Blob} {m : Machine} {C : Contract b} {i : Nat}

namespace Machine

/-- A tick up to the point where its result is recorded. -/
def settle (m : Machine) (room i : Nat) : Run b Status := do
  let bh ← m.prepare i
  Run.setInst (← Run.inst).enter
  let r ← (bh.tick m.registries ⟨m.tickWithin room, m.reset⟩ i).attempt
  Run.setInst (← Run.inst).leave
  match r with
  | .error e => do
    Run.clearSubtree i
    throw e
  | .ok s => do
    Run.update (·.setState i s)
    return s

theorem tickWithin_succ (m : Machine) (room i : Nat) : m.tickWithin (b := b) (room + 1) i = do
    let s ← m.settle room i
    m.trace i (.tick s)
    return s := by
  simp only [tickWithin, perform, settle, bind_assoc]
  refine bind_congr fun bh => bind_congr fun s₁ => bind_congr fun _ => bind_congr fun r => ?_
  refine bind_congr fun s₂ => bind_congr fun _ => ?_
  cases r with
  | error e =>
      simp only [bind_assoc]
      rfl
  | ok s => simp only [bind_assoc, pure_bind]

theorem perform_congr (m : Machine) {x y : Run b Status} {w : World b}
    (h : x.exec { w with inst := w.inst.enter } = y.exec { w with inst := w.inst.enter }) :
    (m.perform i x).exec w = (m.perform i y).exec w := by
  have hattempt : x.attempt.exec { w with inst := w.inst.enter } = y.attempt.exec { w with inst := w.inst.enter } :=
    congrArg (fun r : Except Fault Status × World b => ((.ok r.1 : Except Fault (Except Fault Status)), r.2)) h
  have hinst : (Run.inst : Run b (Instance b)).exec w = (.ok w.inst, w) := rfl
  have henter : (Run.setInst w.inst.enter).exec w = (.ok (), { w with inst := w.inst.enter }) := rfl
  simp only [perform, Run.exec_bind, hinst, henter, hattempt]

theorem trace_off (h : m.config.trace = false) (ev : NodeEvent) :
    (m.trace i ev : Run b Unit) = pure () := by
  simp [trace, h]

/-- A trace event changes the blackboard only, and fails only with a blackboard error. -/
theorem trace_yields (m : Machine) (i : Nat) (ev : NodeEvent) (w : World b) :
    (m.trace i ev).Yields w fun r w' => w'.inst = w.inst ∧
      ∀ e, r = .error e → m.config.trace = true ∧
        ∃ err, e = .error (.board err) ∧ (w.board.emit ⟨w.inst.tick, i, ev⟩).2 = .error err := by
  unfold trace Run.emit
  by_cases ht : m.config.trace = true
  · rw [if_pos ht]
    simp only [Run.yields_bind, Run.yields_board, Run.yields_inst, Run.yields_setBoard, Run.yields_lift,
      true_and]
    intro e he
    cases hr : (w.board.emit ⟨w.inst.tick, i, ev⟩).2 with
    | ok u => simp [hr, Checked.ofBoard] at he
    | error err =>
        simp only [hr, Checked.ofBoard, Checked.fail, Except.error.injEq] at he
        exact ⟨ht, err, he.symm, rfl⟩
  · rw [if_neg ht]
    simp

end Machine

namespace Contract

/-- The way out of a tick function that failed. -/
theorem Ends.clear {w w' : World b} {e : Fault} {s : Instance b} (h : C.Ends i w (.error e) w')
    (hi : i < b.size) (hclear : w'.inst.leave.Clears i (b.stop i) s) :
    w'.inst.leave.Frame (Within i (b.stop i)) s ∧ C.On s i (b.stop i) ∧ ¬ s.Running i := by
  obtain ⟨-, hon, hdata, -⟩ := h
  refine ⟨hclear.frame, Contract.On.clears (fun p hp => ?_) hi hclear,
    hclear.not_running ⟨Nat.le_refl _, Blob.lt_stop hi⟩⟩
  rcases Nat.eq_or_lt_of_le hp.1 with rfl | hp'
  · exact hdata
  · exact (hon p ⟨hp', hp.2⟩).1

/-- The way out of a tick function that came to a result. -/
theorem Ends.record {w w' : World b} {st : Status} {s : Instance b} (h : C.Ends i w (.ok st) w')
    (hi : i < b.size) (hset : w'.inst.leave.Sets i { w'.inst.cell i with state := some st } s) :
    w'.inst.leave.Frame (Within i (b.stop i)) s ∧ C.On s i (b.stop i) ∧ (s.cell i).state = some st := by
  obtain ⟨-, hon, hdata, hholds⟩ := h
  have hle := Blob.stop_le hi
  have hon' : C.On w'.inst.leave (i + 1) (b.stop i) := hon.congr hle fun _ _ => rfl
  refine ⟨hset.frame.subtree hi, Contract.On.cons ?_ (hholds s hset.self hset.other)
    (hon'.after hle hset.frame fun j hj => by omega), by rw [hset.self]⟩
  rw [hset.self]
  exact hdata

namespace Upheld

theorem trace (h : C.Upheld m) (i : Nat) (ev : NodeEvent) (w : World b) :
    (m.trace i ev).Yields w fun r w' => w'.inst = w.inst ∧ ∀ e, r = .error e → C.fault e := by
  refine (m.trace_yields i ev w).mono ?_
  rintro r w' ⟨hinst, herr⟩
  refine ⟨hinst, fun e he => ?_⟩
  obtain ⟨ht, err, rfl, hemit⟩ := herr e he
  exact h.untraced ht _ _ _ hemit

/-- A node is ready once its default data is back and its reset has run. -/
theorem activate (h : C.Upheld m) (hi : i < b.size) {bh : Behavior} (hbh : m.behaviorAt b i = .ok bh)
    (w : World b) (hon : C.On w.inst i (b.stop i)) (hr : ¬ w.inst.Running i) :
    (m.activate bh i).Yields w fun r w' => w.inst.OwnData i w'.inst ∧ C.On w'.inst i (b.stop i) ∧
      ¬ w'.inst.Running i ∧
      match r with
      | .ok _ => C.ready w'.inst i
      | .error e => C.fault e := by
  obtain ⟨s₁, hs₁, hset⟩ := Instance.restore_sets w.inst hi
  unfold Machine.activate
  simp only [Run.yields_bind, Run.yields_update, hs₁]
  have hbytes : (s₁.cell i).bytes = b.defaults i := by rw [hset.self]
  refine (h.reset i hi bh hbh ⟨s₁, w.board⟩ hbytes).mono ?_
  rintro r w' ⟨hown, hdata, hres⟩
  have hown' : w.inst.OwnData i w'.inst :=
    ⟨hset.frame.trans hown.toFrame, by rw [hown.state, hset.self]⟩
  have hquiet : ¬ w'.inst.Running i := by
    unfold Instance.Running
    rw [hown'.state]
    exact hr
  obtain ⟨hholds, hready⟩ := h.start i hi _ _ hon hr hown'
  have hon' : C.On w'.inst i (b.stop i) := Contract.On.cons hdata hholds
    ((hon.mono (Nat.le_succ i) (Nat.le_refl _)).after (Blob.stop_le hi) hown'.toFrame fun j hj => by omega)
  cases r with
  | error e => exact ⟨hown', hon', hquiet, hres⟩
  | ok u =>
      refine (h.trace i .reset w').mono ?_
      rintro r w'' ⟨hinst, herr⟩
      rw [hinst]
      cases r with
      | error e => exact ⟨hown', hon', hquiet, herr e rfl⟩
      | ok u => exact ⟨hown', hon', hquiet, hready hres⟩

/-- A node is ready when it was running, or once it was activated. -/
theorem prepare (h : C.Upheld m) (hi : i < b.size) (w : World b) (hon : C.On w.inst i (b.stop i)) :
    (m.prepare i).Yields w fun r w' => w.inst.OwnData i w'.inst ∧ C.On w'.inst i (b.stop i) ∧
      match r with
      | .ok bh => m.behaviorAt b i = .ok bh ∧ C.ready w'.inst i
      | .error e => C.fault e ∧ (m.behaviorAt b i = .error e ∨ ¬ w'.inst.Running i) := by
  unfold Machine.prepare
  simp only [Run.yields_bind, Run.yields_lift, Run.yields_inst]
  cases hbh : m.behaviorAt b i with
  | error e =>
      exact ⟨⟨Instance.Frame.refl _ _, rfl⟩, hon, h.unknown i hi e hbh, Or.inl rfl⟩
  | ok bh =>
      simp only [Instance.state_eq w.inst hi]
      by_cases hr : w.inst.Running i
      · have hs : (w.inst.cell i).state = some .running := hr
        simp only [hs, ne_eq, not_true_eq_false, ↓reduceIte, Run.yields_pure]
        exact ⟨⟨Instance.Frame.refl _ _, rfl⟩, hon, trivial, h.resume i hi _ hon hr⟩
      · have hs : (w.inst.cell i).state ≠ some .running := hr
        simp only [hs, ne_eq, not_false_eq_true, ↓reduceIte, Run.yields_bind, Run.yields_pure]
        refine (h.activate hi hbh w hon hr).mono ?_
        rintro r w' ⟨hown, hon', hquiet, hres⟩
        cases r with
        | error e => exact ⟨hown, hon', hres, Or.inr hquiet⟩
        | ok u => exact ⟨hown, hon', trivial, hres⟩

/-- Settling keeps the contract. If it fails, its node is not running any more, unless the machine does
not know the node. -/
theorem settle (h : C.Upheld m) (hi : i < b.size) {room : Nat}
    (ih : ∀ c ∈ b.childList i, C.Kept c (m.tickWithin room c)) (w : World b)
    (hon : C.On w.inst i (b.stop i)) :
    (m.settle room i).Yields w fun r w' => w.inst.Frame (Within i (b.stop i)) w'.inst ∧
      C.On w'.inst i (b.stop i) ∧
      match r with
      | .ok st => (w'.inst.cell i).state = some st
      | .error e => C.fault e ∧ (m.behaviorAt b i = .error e ∨ ¬ w'.inst.Running i) := by
  have hlt := Blob.lt_stop hi
  have hle := Blob.stop_le hi
  unfold Machine.settle
  rw [Run.yields_bind]
  refine (h.prepare hi w hon).mono ?_
  rintro r w₁ ⟨hown, hon₁, hr⟩
  have hfr₁ : w.inst.Frame (Within i (b.stop i)) w₁.inst := hown.toFrame.subtree hi
  cases r with
  | error e => exact ⟨hfr₁, hon₁, hr⟩
  | ok bh =>
      obtain ⟨hbh, hready⟩ := hr
      simp only [Run.yields_bind, Run.yields_inst, Run.yields_setInst, Run.yields_attempt]
      have hbelow : C.On w₁.inst.enter (i + 1) (b.stop i) :=
        (hon₁.mono (Nat.le_succ i) (Nat.le_refl _)).congr hle fun _ _ => rfl
      have hserve := h.tick i hi bh hbh ⟨m.tickWithin room, m.reset⟩ ih ⟨w₁.inst.enter, w₁.board⟩ hbelow
        (hon₁ i ⟨Nat.le_refl _, hlt⟩).1
        (C.ready_of_cells hi (fun j _ => w₁.inst.cell_enter j) hready)
      refine hserve.mono ?_
      rintro r w₂ hends
      have hfr : w.inst.Frame (Within i (b.stop i)) w₂.inst.leave := hfr₁.trans hends.1.leave
      cases r with
      | error e =>
          obtain ⟨s₃, hs₃, hclear⟩ := Instance.clearStates_clears w₂.inst.leave (Nat.le_of_lt hlt) hle
          simp only [Run.clearSubtree, Run.yields_bind, Run.yields_lift, Blob.endOf_eq hi,
            Run.yields_update, hs₃, Run.yields_throw]
          obtain ⟨hfr₃, hon₃, hquiet⟩ := hends.clear hi hclear
          exact ⟨hfr.trans hfr₃, hon₃, hends.2.2.2, Or.inr hquiet⟩
      | ok st =>
          obtain ⟨s₃, hs₃, hset⟩ := Instance.setState_sets w₂.inst.leave hi st
          simp only [Run.yields_bind, Run.yields_update, hs₃, Run.yields_pure]
          obtain ⟨hfr₃, hon₃, hst⟩ := hends.record hi hset
          exact ⟨hfr.trans hfr₃, hon₃, hst⟩

theorem tickWithin_kept (h : C.Upheld m) : ∀ room, ∀ i < b.size, C.Kept i (m.tickWithin room i) := by
  intro room
  induction room with
  | zero =>
      intro i hi w hon
      rw [Machine.tickWithin, Run.yields_bind]
      refine (h.prepare hi w hon).mono ?_
      rintro r w₁ ⟨hown, hon₁, hr⟩
      have hfr : w.inst.Frame (Within i (b.stop i)) w₁.inst := hown.toFrame.subtree hi
      cases r with
      | error e => exact ⟨hfr, hon₁, hr.1⟩
      | ok bh => exact ⟨hfr, hon₁, h.tooDeep i hi⟩
  | succ room ih =>
      intro i hi w hon
      rw [Machine.tickWithin_succ, Run.yields_bind]
      refine (h.settle hi (fun c hc => ih c (Blob.lt_size_of_mem_childList hi hc)) w hon).mono ?_
      rintro r w₁ ⟨hfr, hon₁, hr⟩
      cases r with
      | error e => exact ⟨hfr, hon₁, hr.1⟩
      | ok st =>
          simp only [Run.yields_bind, Run.yields_pure]
          refine (h.trace i (.tick st) w₁).mono ?_
          rintro r w₂ ⟨hinst, herr⟩
          rw [hinst]
          cases r with
          | error e => exact ⟨hfr, hon₁, herr e rfl⟩
          | ok u => exact ⟨hfr, hon₁, hr⟩

end Upheld

end Contract

end BehaviorTree
