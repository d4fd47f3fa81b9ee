import BehaviorTree.Proofs.Library.Confined

/-!
# Sequences and selectors go on, stop and preempt

A sequence or selector ticks its children in order up to the first that does not let it go on. Later children
that are running are aborted. The loop that does this looks at the children only. That nothing further below
is left running depends on running nodes having running parents.
-/

namespace BehaviorTree

open Library Run

variable {b : Blob} {i c hi : Nat} {tk : Nat → Run b Status} {st keep : Status} {w w₁ w₂ : World b}
  {cs ds : List Nat} {s s' : Instance b}

/-- From every world, `x` changes no cells but those in the subtree of node `c`. -/
def Run.Inside {α : Type} (c : Nat) (x : Run b α) : Prop :=
  x.Obeys fun w w' => ∀ j, ¬ Within c (b.stop c) j → w'.inst.cell j = w.inst.cell j

theorem Run.Confined.inside {α : Type} {x : Run b α} (h : x.Confined c) : x.Inside c := h.mono fun _ _ hf => hf.cell

/-! ## Ticks in a row -/

/-- The nodes are ticked in order, once each, and all come to the result `st`. -/
inductive Passes (tk : Nat → Run b Status) (st : Status) : List Nat → World b → World b → Prop
  | nil (w : World b) : Passes tk st [] w w
  | cons {c : Nat} {cs : List Nat} {w w₁ w₂ : World b} : (tk c).exec w = (.ok st, w₁) →
      Passes tk st cs w₁ w₂ → Passes tk st (c :: cs) w w₂

/-- Ticks that stay in their subtrees leave the rest alone. -/
theorem Passes.cell (h : Passes tk st cs w w₁) (htk : ∀ c ∈ cs, (tk c).Inside c) {j : Nat}
    (hj : ∀ c ∈ cs, ¬ Within c (b.stop c) j) : w₁.inst.cell j = w.inst.cell j := by
  induction h with
  | nil => rfl
  | @cons c cs w w₁ w₂ hexec _ ih =>
      rw [List.forall_mem_cons] at htk hj
      have hfirst : ((tk c).exec w).2.inst.cell j = w.inst.cell j := htk.1 w j hj.1
      rw [hexec] at hfirst
      exact (ih htk.2 hj.2).trans hfirst

theorem exists_passes (tk : Nat → Run b Status) (st : Status) (cs : List Nat) (w : World b) :
    ∃ pre rest w₁, cs = pre ++ rest ∧ Passes tk st pre w w₁ ∧
      ∀ c post, rest = c :: post → ((tk c).exec w₁).1 ≠ .ok st := by
  induction cs generalizing w with
  | nil => exact ⟨[], [], w, rfl, .nil w, nofun⟩
  | cons c cs ih =>
      by_cases hst : ((tk c).exec w).1 = .ok st
      · obtain ⟨pre, rest, w₁, rfl, hpre, hrest⟩ := ih ((tk c).exec w).2
        exact ⟨c :: pre, rest, w₁, rfl, .cons (Prod.ext hst rfl) hpre, hrest⟩
      · refine ⟨[], c :: cs, w, rfl, .nil w, ?_⟩
        rintro _ _ ⟨⟩
        exact hst

namespace Library

/-- The loop goes on past what lets it. -/
theorem tickWhile_passes (h : Passes tk keep cs w w₁) (ds : List Nat) :
    (tickWhile keep tk (cs ++ ds)).exec w = (tickWhile keep tk ds).exec w₁ := by
  induction h with
  | nil => rfl
  | cons hexec _ ih =>
      rw [List.cons_append, tickWhile, exec_bind, hexec]
      simp only [↓reduceIte]
      exact ih

theorem tickWhile_stops (h : (tk c).exec w = (.ok st, w₁)) (hst : st ≠ keep) (ds : List Nat) :
    (tickWhile keep tk (c :: ds)).exec w = (abortRunning ds >>= fun _ => pure st).exec w₁ := by
  rw [tickWhile, exec_bind, h]
  simp only [if_neg hst]

theorem tickWhile_fails {e : Fault} (h : (tk c).exec w = (.error e, w₁)) (ds : List Nat) :
    (tickWhile keep tk (c :: ds)).exec w = (.error e, w₁) := by
  rw [tickWhile, exec_bind, h]

end Library

/-! ## Preemption -/

/-- Those of the siblings that were running are inactive, with all below them; nothing else has changed. -/
structure Instance.Preempts (cs : List Nat) (s s' : Instance b) : Prop where
  stopped : ∀ c ∈ cs, s.Running c → ∀ j, Within c (b.stop c) j → s'.cell j = { s.cell j with state := none }
  kept : ∀ c ∈ cs, ¬ s.Running c → ∀ j, Within c (b.stop c) j → s'.cell j = s.cell j

namespace Library

theorem abortOne_preempts (hc : c < b.size) (w : World b) : (abortOne c).Yields w fun r w' =>
    r = .ok () ∧ w'.board = w.board ∧ w.inst.Frame (Within c (b.stop c)) w'.inst ∧ w.inst.Preempts [c] w'.inst := by
  simp only [abortOne, yields_bind, yields_inst, yields_lift, Instance.state_eq _ hc]
  split
  · rename_i hrun
    refine (Machine.abort_clears hc w).mono ?_
    rintro r w' ⟨hr, hclear, -, hboard⟩
    refine ⟨hr, hboard, hclear.frame, ?_, ?_⟩
    · simp only [List.forall_mem_singleton]
      exact fun _ j hj => hclear.inside j hj.1 hj.2
    · simp only [List.forall_mem_singleton]
      exact fun hquiet => absurd hrun hquiet
  · rename_i hrun
    refine ⟨rfl, rfl, Instance.Frame.refl _ _, ?_, ?_⟩
    · simp only [List.forall_mem_singleton]
      exact fun h => absurd h hrun
    · simp only [List.forall_mem_singleton]
      exact fun _ _ _ => rfl

theorem abortRunning_preempts (hhi : hi ≤ b.size) : ∀ {cs : List Nat} {lo : Nat}, b.Tiles hi lo cs →
    ∀ w : World b, (abortRunning cs).Yields w fun r w' => r = .ok () ∧ w'.board = w.board ∧
      w.inst.Frame (Within lo hi) w'.inst ∧ w.inst.Preempts cs w'.inst
  | [], _, _, w => ⟨rfl, rfl, Instance.Frame.refl _ _, nofun, nofun⟩
  | c :: cs, lo, ⟨hc, hlt, hle, ht⟩, w => by
      subst hc
      rw [abortRunning_cons, yields_bind]
      refine (abortOne_preempts (by omega) w).mono ?_
      rintro r w₁ ⟨rfl, hboard₁, hf₁, hone⟩
      refine (abortRunning_preempts hhi ht w₁).mono ?_
      rintro r w₂ ⟨hr, hboard₂, hf₂, hrest⟩
      refine ⟨hr, hboard₂.trans hboard₁,
        (hf₁.widen (Nat.le_refl _) hle).trans (hf₂.widen (Nat.le_of_lt hlt) (Nat.le_refl _)), ?_⟩
      -- The first subtree and the later ones do not meet, so each is changed in one of the two steps only.
      have hfirst : ∀ j, Within c (b.stop c) j → w₂.inst.cell j = w₁.inst.cell j := fun j hj =>
        hf₂.cell j fun hj' => Nat.not_lt.mpr hj'.1 hj.2
      have hlater : ∀ d ∈ cs, ∀ j, Within d (b.stop d) j → w₁.inst.cell j = w.inst.cell j := fun d hd j hj =>
        hf₁.cell j fun hj' => by
          have := (ht.mem hd).1
          have := hj.1
          have := hj'.2
          omega
      have hself : ∀ d ∈ cs, w₁.inst.Running d ↔ w.inst.Running d := fun d hd => by
        rw [Instance.Running, Instance.Running, hlater d hd d ⟨Nat.le_refl _, (ht.mem hd).2.1⟩]
      constructor
      · refine List.forall_mem_cons.mpr ⟨fun hrun j hj => ?_, fun d hd hrun j hj => ?_⟩
        · rw [hfirst j hj, hone.stopped c List.mem_cons_self hrun j hj]
        · rw [hrest.stopped d hd ((hself d hd).mpr hrun) j hj, hlater d hd j hj]
      · refine List.forall_mem_cons.mpr ⟨fun hrun j hj => ?_, fun d hd hrun j hj => ?_⟩
        · rw [hfirst j hj, hone.kept c List.mem_cons_self hrun j hj]
        · rw [hrest.kept d hd (mt (hself d hd).mp hrun) j hj, hlater d hd j hj]

end Library

namespace Library

/-- The loop comes to its end, or it stops at a child that does not let it go on, or at one that fails. -/
theorem tickWhile_cases {lo : Nat} (ht : b.Tiles hi lo cs) (hhi : hi ≤ b.size) (keep : Status)
    (tk : Nat → Run b Status) (w : World b) :
    (∃ w', Passes tk keep cs w w' ∧ (tickWhile keep tk cs).exec w = (.ok keep, w')) ∨
    (∃ pre c post w₁ st w₂ w', cs = pre ++ c :: post ∧ Passes tk keep pre w w₁ ∧
      (tk c).exec w₁ = (.ok st, w₂) ∧ st ≠ keep ∧ w₂.inst.Frame (Within (b.stop c) hi) w'.inst ∧
      w'.board = w₂.board ∧ w₂.inst.Preempts post w'.inst ∧ (tickWhile keep tk cs).exec w = (.ok st, w')) ∨
    ∃ pre c post w₁ e w', cs = pre ++ c :: post ∧ Passes tk keep pre w w₁ ∧
      (tk c).exec w₁ = (.error e, w') ∧ (tickWhile keep tk cs).exec w = (.error e, w') := by
  obtain ⟨pre, rest, w₁, rfl, hpre, hrest⟩ := exists_passes tk keep cs w
  rw [tickWhile_passes hpre]
  cases rest with
  | nil =>
      rw [List.append_nil]
      exact .inl ⟨w₁, hpre, rfl⟩
  | cons c post =>
      have hnot := hrest c post rfl
      rcases hc : (tk c).exec w₁ with ⟨e | st, w₂⟩
      · exact .inr (.inr ⟨pre, c, post, w₁, e, w₂, rfl, hpre, hc, tickWhile_fails hc post⟩)
      · have hst : st ≠ keep := fun h => hnot (by rw [hc, h])
        obtain ⟨hok, hboard, hframe, hpreempts⟩ := abortRunning_preempts hhi ht.split.2.2.2 w₂
        refine .inr (.inl ⟨pre, c, post, w₁, st, w₂, ((abortRunning post).exec w₂).2, rfl, hpre, hc, hst, hframe,
          hboard, hpreempts, ?_⟩)
        rw [tickWhile_stops hc hst, exec_bind, show (abortRunning post).exec w₂ = (.ok (), _) from Prod.ext hok rfl]
        rfl

end Library

/-- What a preemption leaves of the nodes from `lo` to before `hi`, the later siblings of a node and all below
them: none is running, the results of those under siblings that were not running stand, and so do all data. -/
structure Instance.Preempted (lo hi : Nat) (post : List Nat) (s s' : Instance b) : Prop where
  quiet : ∀ j, Within lo hi j → s'.state j ≠ .ok (some .running)
  state : ∀ d ∈ post, s.state d ≠ .ok (some .running) → ∀ j, Within d (b.stop d) j → s'.state j = s.state j
  bytes : ∀ j, Within lo hi j → s'.bytes j = s.bytes j

/-- Below a sibling that was not running nothing was, so all that was running has been aborted. -/
theorem Instance.Preempts.preempted {lo : Nat} {s₀ : Instance b} (h : s.Preempts cs s') (ht : b.Tiles hi lo cs)
    (hhi : hi ≤ b.size) (hsame : ∀ j, Within lo hi j → s.cell j = s₀.cell j) (hover : s₀.Overseen) :
    s₀.Preempted lo hi cs s' := by
  have hsize : ∀ {j}, Within lo hi j → j < b.size := fun hj => Nat.lt_of_lt_of_le hj.2 hhi
  have hwithin : ∀ d ∈ cs, ∀ j, Within d (b.stop d) j → Within lo hi j := fun d hd j hj =>
    ⟨Nat.le_trans (ht.mem hd).1 hj.1, Nat.lt_of_lt_of_le hj.2 (ht.mem hd).2.2⟩
  have hrunning : ∀ j, Within lo hi j → (s.Running j ↔ s₀.Running j) := fun j hj => by
    rw [Instance.Running, Instance.Running, hsame j hj]
  have hkept : ∀ d ∈ cs, ¬ s₀.Running d → ∀ j, Within d (b.stop d) j → s'.cell j = s₀.cell j := by
    intro d hd hrun j hj
    have hself := hwithin d hd d ⟨Nat.le_refl _, (ht.mem hd).2.1⟩
    rw [h.kept d hd (mt (hrunning d hself).mp hrun) j hj, hsame j (hwithin d hd j hj)]
  have hcell : ∀ j, Within lo hi j → (s'.cell j).bytes = (s₀.cell j).bytes ∧ ¬ s'.Running j := by
    intro j hj
    obtain ⟨d, hd, hdj, hjd⟩ := ht.cover hj.1 hj.2
    have hself := hwithin d hd d ⟨Nat.le_refl _, (ht.mem hd).2.1⟩
    by_cases hrun : s₀.Running d
    · rw [Instance.Running, h.stopped d hd ((hrunning d hself).mpr hrun) j ⟨hdj, hjd⟩, hsame j hj]
      exact ⟨rfl, nofun⟩
    · have hquiet := Instance.quiet_below (hsize hself) (fun p k c _ => hover p k c) hrun j ⟨hdj, hjd⟩
      rw [Instance.Running, hkept d hd hrun j ⟨hdj, hjd⟩]
      exact ⟨rfl, hquiet⟩
  constructor
  · exact fun j hj => mt Instance.running_iff.mpr (hcell j hj).2
  · intro d hd hrun j hj
    have hjb := hsize (hwithin d hd j hj)
    rw [Instance.state_eq _ hjb, Instance.state_eq _ hjb, hkept d hd (mt Instance.running_iff.mp hrun) j hj]
  · intro j hj
    rw [Instance.bytes_eq _ (hsize hj), Instance.bytes_eq _ (hsize hj), (hcell j hj).1]

/-! ## The two behaviors -/

/-- Sequences and selectors, with the result of a child at which they go on to the next. -/
inductive Library.GoesOn : Behavior → Status → Prop
  | sequence : GoesOn sequence .success
  | selector : GoesOn selector .failure

theorem Library.GoesOn.tick_exec {bh : Behavior} (h : GoesOn bh keep) (hi : i < b.size) (rs : Registries)
    (cb : Callbacks b) (w : World b) :
    (bh.tick rs cb i).exec w = (tickWhile keep cb.tick (b.childList i)).exec w := by
  have hloop : (Run.children i >>= tickWhile keep cb.tick).exec w =
      (tickWhile keep cb.tick (b.childList i)).exec w := by
    rw [OwnSteps.children_eq hi, pure_bind]
  cases h with
  | sequence => exact hloop
  | selector => exact hloop

/-- A sequence or selector whose children stay in their subtrees ticks some first children, once each and in
order. All of these but the last let it go on. If the last does not, then its result is the answer, and the
later children are preempted; if the last one fails, so does the node, in the same way, and no later child
has changed. -/
theorem traverses_prefix {bh : Behavior} (hbh : GoesOn bh keep) {cs : List Nat} (hcs : b.children i = .ok cs)
    (cb : Callbacks b) (htick : ∀ c ∈ cs, (cb.tick c).Inside c) (rs : Registries) (w : World b)
    (hw : w.inst.Overseen) :
    (∀ st w', (bh.tick rs cb i).exec w = (.ok st, w') →
      (st = keep ∧ Passes cb.tick keep cs w w') ∨
      ∃ pre c post w₁ w₂, cs = pre ++ c :: post ∧ Passes cb.tick keep pre w w₁ ∧
        (cb.tick c).exec w₁ = (.ok st, w₂) ∧ st ≠ keep ∧
        w₂.inst.Frame (Within (b.stop c) (b.stop i)) w'.inst ∧ w'.board = w₂.board ∧
        w.inst.Preempted (b.stop c) (b.stop i) post w'.inst) ∧
    ∀ e w', (bh.tick rs cb i).exec w = (.error e, w') ↔
      ∃ pre c post w₁, cs = pre ++ c :: post ∧ Passes cb.tick keep pre w w₁ ∧
        (cb.tick c).exec w₁ = (.error e, w') := by
  have hi : i < b.size := Nat.lt_of_not_le fun hle => by
    rw [Layout.children, Blob.endOf_of_le hle] at hcs
    cases hcs
  obtain rfl : b.childList i = cs := Except.ok.inj ((Blob.children_eq hi).symm.trans hcs)
  have htiles := Blob.tiles hi
  have hhi := Blob.stop_le hi
  rw [hbh.tick_exec hi]
  constructor
  · intro st w' hexec
    rcases tickWhile_cases htiles hhi keep cb.tick w with ⟨w₁, hall, h⟩ |
      ⟨pre, c, post, w₁, st', w₂, w₃, hsplit, hpre, hc, hst, hframe, hboard, hpreempts, h⟩ |
      ⟨pre, c, post, w₁, e, w₂, -, -, -, h⟩
    · cases h.symm.trans hexec
      exact .inl ⟨rfl, hall⟩
    · cases h.symm.trans hexec
      rw [hsplit] at htiles htick
      obtain ⟨htpre, hlt, -, htpost⟩ := htiles.split
      refine .inr ⟨pre, c, post, w₁, w₂, hsplit, hpre, hc, hst, hframe, hboard,
        hpreempts.preempted htpost hhi (fun j hj => ?_) hw⟩
      -- The ticks up to that of `c` do not come to the later children.
      have hchild : ((cb.tick c).exec w₁).2.inst.cell j = w₁.inst.cell j :=
        htick c (by simp) w₁ j fun hj' => Nat.not_lt.mpr hj.1 hj'.2
      have hearlier : w₁.inst.cell j = w.inst.cell j := by
        refine hpre.cell (fun d hd => htick d (List.mem_append_left _ hd)) fun d hd hj' => ?_
        have := htpre.mem hd
        have := hj.1
        have := hj'.2
        omega
      rw [hc] at hchild
      exact hchild.trans hearlier
    · cases h.symm.trans hexec
  · intro e w'
    constructor
    · intro hexec
      rcases tickWhile_cases htiles hhi keep cb.tick w with ⟨w₁, -, h⟩ |
        ⟨pre, c, post, w₁, st, w₂, w₃, -, -, -, -, -, -, -, h⟩ |
        ⟨pre, c, post, w₁, e', w₂, hsplit, hpre, hc, h⟩
      · cases h.symm.trans hexec
      · cases h.symm.trans hexec
      · cases h.symm.trans hexec
        exact ⟨pre, c, post, w₁, hsplit, hpre, hc⟩
    · rintro ⟨pre, c, post, w₁, hsplit, hpre, hc⟩
      rw [hsplit, tickWhile_passes hpre, tickWhile_fails hc]

/-! ## A selector that changes its mind -/

/-- A selector over a node that succeeds and one that is running. -/
def Blob.secondThoughts : Blob :=
  ⟨⟨#[selectorId, fixedId, fixedId], #[3, 2, 3], #[0, 0, 8], #[0, 1, 1], #[1, 4]⟩, by decide⟩

/-- The second child is running, although the first one now succeeds. -/
def Instance.secondThoughts : Instance .secondThoughts :=
  { Instance.new .secondThoughts with states := #v[some .running, none, some .running] }

theorem Instance.overseen_secondThoughts : Instance.secondThoughts.Overseen := by
  intro p k c hc _
  have hp : p < 3 := hc.1
  have hmem := hc.mem
  match p with
  | 0 => exact rfl
  | 1 => exact absurd hmem (by simp [show Blob.secondThoughts.childList 1 = [] from rfl])
  | 2 => exact absurd hmem (by simp [show Blob.secondThoughts.childList 2 = [] from rfl])

theorem traverses_prefix_secondThoughts :
    let w : World .secondThoughts := ⟨Instance.secondThoughts, .empty⟩
    let x := (selector.tick Machine.ofLibrary.registries ⟨Machine.ofLibrary.tick, Machine.ofLibrary.reset⟩ 0).exec w
    GoesOn selector .failure ∧ Blob.secondThoughts.children 0 = .ok [1, 2] ∧
      (∀ c ∈ [1, 2], (Machine.ofLibrary.tick c : Run .secondThoughts Status).Inside c) ∧ w.inst.Overseen ∧
      x.1 = .ok .success ∧ w.inst.state 2 = .ok (some .running) ∧ x.2.inst.state 2 = .ok none ∧
      w.inst.Preempted 2 3 [2] x.2.inst := by
  intro w x
  have hinside : ∀ c ∈ [1, 2], (Machine.ofLibrary.tick c : Run .secondThoughts Status).Inside c := fun c hc =>
    (Machine.Standard.ofLibrary.tick_confined (by
      simp only [List.mem_cons, List.not_mem_nil, or_false] at hc
      rcases hc with rfl | rfl <;> decide)).inside
  have hok : x.1 = .ok .success := by decide +kernel
  have hfirst : ((Machine.ofLibrary.tick 1).exec w).1 = .ok .success := by decide +kernel
  have hcs : Blob.secondThoughts.children 0 = .ok [1, 2] := rfl
  refine ⟨.selector, hcs, hinside, Instance.overseen_secondThoughts, hok, rfl, by decide +kernel, ?_⟩
  obtain ⟨hstops, -⟩ := traverses_prefix .selector hcs ⟨Machine.ofLibrary.tick, Machine.ofLibrary.reset⟩ hinside
    Machine.ofLibrary.registries w Instance.overseen_secondThoughts
  rcases hstops .success x.2 (Prod.ext hok rfl) with ⟨hkeep, -⟩ |
    ⟨pre, c, post, w₁, w₂, hsplit, hpre, -, -, -, -, hpreempted⟩
  · cases hkeep
  · cases hpre with
    | nil =>
        cases hsplit
        exact hpreempted
    | cons hexec _ =>
        cases (List.cons.inj hsplit).1
        rw [hexec] at hfirst
        cases hfirst

end BehaviorTree
