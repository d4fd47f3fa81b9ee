import BehaviorTree.Proofs.Trace.TickFunction

/-!
# What ticks tell

A tick of a node tells of its activation, if there is one, then of what happens below it and then of its
result. If it fails the subtree is made inactive, which is told to nobody.
-/

namespace BehaviorTree

open Run

variable {b : Blob} {m : Machine} {i : Nat}

/-- The event of the activation with which a tick of node `i` starts. -/
def activation (s : Instance b) (i : Nat) : List TraceEvent :=
  if s.Running i then [] else [⟨s.tick, i, .reset⟩]

section Activation

variable {s : Instance b} {c : Cell}

theorem activation_cases (s : Instance b) (i : Nat) :
    activation s i = [] ∨ activation s i = [⟨s.tick, i, .reset⟩] := by
  unfold activation
  split
  · exact Or.inl rfl
  · exact Or.inr rfl

/-- The node was made ready and came to a result. -/
theorem Episode.of_result {whole : Prop} {st : Status} (hs : c.state = some st) :
    Episode whole (s.cell i) c (history i (activation s i) ++ [.tick st]) := by
  unfold activation
  split
  · rename_i hr
    exact .resumed st hr (Or.inl hs) fun _ => hs
  · rename_i hr
    rw [history_self]
    exact .entered st hr (Or.inl hs) fun _ => hs

/-- The node was made ready, or that failed, and it came to no result. -/
theorem Episode.of_failure {pre : List TraceEvent} (hpre : pre = activation s i ∨ pre = [])
    (hs : c.state = (s.cell i).state ∨ c.state = none) : Episode False (s.cell i) c (history i pre) := by
  have hskip : Episode False (s.cell i) c [] := .skipped hs False.elim
  rcases hpre with rfl | rfl
  · unfold activation
    split
    · exact hskip
    · rename_i hr
      rw [history_self]
      refine .activated hr (fun hrun => ?_) id
      rcases hs with hs | hs
      · exact hr (hs.symm.trans hrun)
      · rw [hs] at hrun
        cases hrun
  · exact hskip

end Activation

/-- The way out of a tick whose node got no further than its preparation. -/
theorem Account.of_preparation {s s' : Instance b} (hi : i < b.size) (hown : s.OwnData i s')
    {pre : List TraceEvent} (hpre : pre = activation s i ∨ pre = []) :
    Account False i (b.stop i) s s' pre := by
  have hcases : pre = [] ∨ pre = [⟨s.tick, i, .reset⟩] := by
    rcases hpre with rfl | rfl
    · exact activation_cases s i
    · exact Or.inl rfl
  have hmid : Account False (i + 1) (b.stop i) s s' [] := .silent (fun x hx => Or.inl ?_) False.elim
  · have h := hmid.around hi hcases (Or.inl (Eq.refl [])) ?_
    · rw [List.append_nil, List.append_nil] at h
      exact h
    · rw [history_nil, List.append_nil]
      exact .of_failure hpre (Or.inl hown.state)
  · rw [hown.cell x fun h => by have := hx.1; omega]

/-- The way out of a tick whose tick function failed. -/
theorem Account.of_cleared {whole : Prop} {s s₁ s' : Instance b} {evs : List TraceEvent} (hi : i < b.size)
    (h : Account whole (i + 1) (b.stop i) s s₁ evs) (hclear : s₁.Clears i (b.stop i) s') :
    Account False i (b.stop i) s s' (activation s i ++ evs) := by
  have hbelow := h.clear fun x hx => hclear.inside x (Nat.le_of_succ_le hx.1) hx.2
  have hnone : (s'.cell i).state = none := by rw [hclear.inside i (Nat.le_refl i) (Blob.lt_stop hi)]
  have hall := hbelow.around hi (activation_cases s i) (Or.inl (Eq.refl [])) (by
    rw [history_nil, List.append_nil]
    exact .of_failure (Or.inl rfl) (Or.inr hnone))
  rw [List.append_nil] at hall
  exact hall

/-- The way out of a tick with a result. -/
theorem Account.of_result {whole : Prop} {s s₁ s' : Instance b} {evs : List TraceEvent} {st : Status}
    (hi : i < b.size) (h : Account whole (i + 1) (b.stop i) s s₁ evs)
    (hset : s₁.Sets i { s₁.cell i with state := some st } s') :
    Account whole i (b.stop i) s s' (activation s i ++ evs ++ [⟨s.tick, i, .tick st⟩]) := by
  have hbelow : Account whole (i + 1) (b.stop i) s s' evs := h.congr rfl (fun _ _ => rfl) fun x hx =>
    hset.other x fun heq => by have := hx.1; omega
  exact hbelow.around hi (activation_cases s i) (Or.inr ⟨st, rfl⟩) (by
    rw [history_self]
    exact .of_result (by rw [hset.self]))

namespace Machine

theorem trace_records (htrace : m.config.trace = true) (i : Nat) (ev : NodeEvent) (w : World b)
    (hlog : w.board.Logging) : (m.trace i ev).Yields w fun _ w' =>
      w'.inst = w.inst ∧ w.board.Records w'.board [⟨w.inst.tick, i, ev⟩] := by
  unfold trace Run.emit
  rw [if_pos htrace]
  simp only [yields_bind, yields_board, yields_inst, yields_setBoard, yields_lift]
  exact ⟨trivial, Blackboard.emit_records hlog _⟩

theorem prepare_records (hm : m.Discreet) (htrace : m.config.trace = true) (hi : i < b.size) (w : World b)
    (hlog : w.board.Logging) : (m.prepare i).Yields w fun r w' => ∃ pre, w.board.Records w'.board pre ∧
      (pre = activation w.inst i ∨ (∃ e, r = .error e) ∧ pre = []) := by
  unfold prepare
  simp only [yields_bind, yields_lift, yields_inst]
  cases hbh : m.behaviorAt b i with
  | error e => exact ⟨[], .refl hlog, Or.inr ⟨⟨e, rfl⟩, rfl⟩⟩
  | ok bh =>
      simp only [Instance.state_eq w.inst hi]
      by_cases hr : w.inst.Running i
      · have hs : (w.inst.cell i).state = some .running := hr
        simp only [hs, ne_eq, not_true_eq_false, ↓reduceIte, yields_pure]
        exact ⟨[], .refl hlog, Or.inl (if_pos hr).symm⟩
      · have hs : (w.inst.cell i).state ≠ some .running := hr
        obtain ⟨s₁, hs₁, hset⟩ := Instance.restore_sets w.inst hi
        have hact : activation w.inst i = [⟨w.inst.tick, i, .reset⟩] := if_neg hr
        simp only [hs, ne_eq, not_false_eq_true, ↓reduceIte, activate, yields_bind, yields_update, hs₁,
          yields_pure]
        refine (((hm.standard.behaviorAt hbh).reset_ownData hi ⟨s₁, w.board⟩).and
          (hm.reset_spares hbh ⟨s₁, w.board⟩)).mono ?_
        rintro r w₁ ⟨hown, hspare⟩
        have hrec := Blackboard.Records.of_spares hspare hlog
        cases r with
        | error e => exact ⟨[], hrec, Or.inr ⟨⟨e, rfl⟩, rfl⟩⟩
        | ok u =>
            refine (trace_records htrace i .reset w₁ hrec.logging).mono ?_
            rintro r w₂ ⟨-, hrec₂⟩
            have hboth := hrec.trans hrec₂
            have htick : w₁.inst.tick = w.inst.tick := hown.tick.trans hset.tick
            rw [List.nil_append, htick, ← hact] at hboth
            cases r with
            | error e => exact ⟨_, hboth, Or.inl rfl⟩
            | ok u => exact ⟨_, hboth, Or.inl rfl⟩

/-- What is told of a node once it is prepared. -/
theorem perform_told (hm : m.Discreet) (htrace : m.config.trace = true) (hi : i < b.size) {x : Run b Status}
    (hx : Narrates (hm.contract b) i x) {w w₁ : World b} (hown : w.inst.OwnData i w₁.inst)
    (hrec : w.board.Records w₁.board (activation w.inst i)) (hon : (hm.contract b).On w₁.inst i (b.stop i))
    (hready : (hm.contract b).ready w₁.inst i) : (m.perform i x).Yields w₁ fun r w' =>
      ∃ evs, w.board.Records w'.board evs ∧ Account (∃ st, r = .ok st) i (b.stop i) w.inst w'.inst evs := by
  have hlt := Blob.lt_stop hi
  have hle := Blob.stop_le hi
  have hbelow : (hm.contract b).On w₁.inst.enter (i + 1) (b.stop i) :=
    (hon.mono (Nat.le_succ i) (Nat.le_refl _)).congr hle fun _ _ => rfl
  have hready' : (hm.contract b).ready w₁.inst.enter i :=
    (hm.contract b).ready_of_cells hi (fun j _ => w₁.inst.cell_enter j) hready
  have hstart : ∀ x, Within (i + 1) (b.stop i) x → w.inst.cell x = w₁.inst.enter.cell x := fun x hx =>
    (hown.cell x fun h => by have := hx.1; omega).symm
  unfold perform
  simp only [yields_bind, yields_inst, yields_setInst, yields_attempt]
  refine (hx ⟨w₁.inst.enter, w₁.board⟩ hrec.logging hbelow hready').mono ?_
  intro r w₂ hseg
  obtain ⟨evs, hrec₂, hacc⟩ := hseg.told
  have hmid : Account (∃ st, r = .ok st) (i + 1) (b.stop i) w.inst w₂.inst.leave evs :=
    hacc.congr hown.tick.symm hstart fun _ _ => rfl
  cases r with
  | error e =>
      obtain ⟨s₃, hs₃, hclear⟩ := Instance.clearStates_clears w₂.inst.leave (Nat.le_of_lt hlt) hle
      simp only [clearSubtree, yields_bind, yields_lift, Blob.endOf_eq hi, yields_update, hs₃, yields_throw]
      exact ⟨_, hrec.trans hrec₂, (hmid.of_cleared hi hclear).failed⟩
  | ok st =>
      obtain ⟨s₃, hs₃, hset⟩ := Instance.setState_sets w₂.inst.leave hi st
      simp only [yields_bind, yields_update, hs₃]
      have hall : Account True i (b.stop i) w.inst s₃ (activation w.inst i ++ evs ++ [⟨w.inst.tick, i, .tick st⟩]) :=
        (hmid.mono fun _ => ⟨st, rfl⟩).of_result hi hset
      have htick : s₃.tick = w.inst.tick := hset.tick.trans (hseg.frame.tick.trans hown.tick)
      refine (trace_records htrace i (.tick st) ⟨s₃, w₂.board⟩ hrec₂.logging).mono ?_
      rintro r w₃ ⟨hinst, hrec₃⟩
      have hrecs := (hrec.trans hrec₂).trans hrec₃
      rw [htick] at hrecs
      cases r with
      | error e =>
          rw [hinst]
          exact ⟨_, hrecs, hall.failed⟩
      | ok u =>
          rw [yields_pure, hinst]
          exact ⟨_, hrecs, hall.mono fun _ => trivial⟩

theorem tickWithin_told (hm : m.Discreet) (htrace : m.config.trace = true) : ∀ room, ∀ i < b.size,
    Told (hm.contract b) i (m.tickWithin room i) := by
  have hup : (hm.contract b).Upheld m := (Typing.any b hm.standard).upheld
  intro room
  induction room with
  | zero =>
      intro i hi w hlog hon
      rw [tickWithin, yields_bind]
      refine ((hup.prepare hi w hon).and (prepare_records hm htrace hi w hlog)).mono ?_
      rintro r w₁ ⟨⟨hown, -, -⟩, pre, hrec, hpre⟩
      have hacc := Account.of_preparation hi hown (hpre.imp_right And.right)
      cases r with
      | error e => exact ⟨pre, hrec, hacc.failed⟩
      | ok bh => exact ⟨pre, hrec, hacc.failed⟩
  | succ room ih =>
      intro i hi w hlog hon
      rw [tickWithin, yields_bind]
      refine ((hup.prepare hi w hon).and (prepare_records hm htrace hi w hlog)).mono ?_
      rintro r w₁ ⟨⟨hown, hon₁, hr⟩, pre, hrec, hpre⟩
      cases r with
      | error e =>
          exact ⟨pre, hrec, (Account.of_preparation hi hown (hpre.imp_right And.right)).failed⟩
      | ok bh =>
          obtain ⟨hbh, hready⟩ := hr
          obtain rfl : pre = activation w.inst i := hpre.resolve_right fun h => by obtain ⟨e, he⟩ := h.1; cases he
          have hkept := fun c hc => hup.tickWithin_kept room c (Blob.lt_size_of_mem_childList hi hc)
          have htold := fun c hc => ih c (Blob.lt_size_of_mem_childList hi hc)
          exact perform_told hm htrace hi (Library.tickFunction_narrates hi hbh hkept htold) hown hrec hon₁ hready

end Machine

end BehaviorTree
