import BehaviorTree.Library
import BehaviorTree.Proofs.Machine.Contract
import BehaviorTree.Proofs.Run.Access

/-!
# Loops over the children of a node

What the loops of sequences and selectors do to children whose subtrees follow one another from `lo` to
`hi`, when every tick of a child keeps a contract.
-/

namespace BehaviorTree

variable {b : Blob} {C : Contract b} {s s₁ s₂ : Instance b} {c i hi : Nat}

namespace Contract

theorem On.rest (h : C.On s c hi) (hc : c < b.size) (hhi : hi ≤ b.size)
    (hf : s.Frame (Within c (b.stop c)) s₁) : C.On s₁ (b.stop c) hi :=
  (h.mono (Nat.le_of_lt (Blob.lt_stop hc)) (Nat.le_refl _)).after hhi hf fun _ hj => hj.2

theorem On.join (h : C.On s₁ c (b.stop c)) (hc : c < b.size) (hf : s₁.Frame (Within (b.stop c) hi) s₂)
    (h' : C.On s₂ (b.stop c) hi) : C.On s₂ c hi :=
  (h.apart hc hf fun _ hj hj' => Nat.not_lt.mpr hj.1 hj'.2).append h'

end Contract

namespace Library

open Contract

variable {tk : Nat → Run b Status}

def abortOne (c : Nat) : Run b Unit := do
  if (← Run.lift ((← Run.inst).state c)) = some .running then Machine.abort c

theorem abortRunning_cons (c : Nat) (cs : List Nat) :
    (abortRunning (c :: cs) : Run b Unit) = abortOne c >>= fun _ => abortRunning cs := by
  simp only [abortRunning, abortOne, bind_assoc]
  refine bind_congr fun s => bind_congr fun st => ?_
  split
  · rfl
  · rw [pure_bind]

theorem abortOne_kept (hc : c < b.size) (w : World b) (hon : C.On w.inst c (b.stop c)) :
    (abortOne c).Yields w fun r w' => r = .ok () ∧ w.inst.Frame (Within c (b.stop c)) w'.inst ∧
      C.On w'.inst c (b.stop c) ∧ ¬ w'.inst.Running c := by
  simp only [abortOne, Run.yields_bind, Run.yields_inst, Run.yields_lift, Instance.state_eq _ hc]
  split
  · rw [Machine.abort, if_neg (Nat.not_le.mpr hc)]
    refine (Run.clearSubtree_yields hc).mono ?_
    rintro r w₁ ⟨hr, hclear, _⟩
    exact ⟨hr, hclear.frame, On.clears (fun p hp => (hon p hp).1) hc hclear,
      hclear.not_running ⟨Nat.le_refl _, Blob.lt_stop hc⟩⟩
  · rename_i hs
    exact ⟨rfl, Instance.Frame.refl _ _, hon, hs⟩

theorem abortRunning_kept (hhi : hi ≤ b.size) : ∀ {cs : List Nat} {lo : Nat}, b.Tiles hi lo cs →
    ∀ w : World b, C.On w.inst lo hi → (abortRunning cs).Yields w fun r w' => r = .ok () ∧
      w.inst.Frame (Within lo hi) w'.inst ∧ C.On w'.inst lo hi ∧ ∀ c ∈ cs, ¬ w'.inst.Running c
  | [], _, _, w, hon => ⟨rfl, Instance.Frame.refl _ _, hon, fun _ hc => absurd hc List.not_mem_nil⟩
  | c :: cs, lo, ⟨hc, hlt, hle, ht⟩, w, hon => by
      subst hc
      have hcs : c < b.size := by omega
      rw [abortRunning_cons, Run.yields_bind]
      refine (abortOne_kept hcs w (hon.mono (Nat.le_refl _) hle)).mono ?_
      rintro r w₁ ⟨hr, hf₁, hon₁, hq₁⟩
      subst hr
      refine (abortRunning_kept hhi ht w₁ (hon.rest hcs hhi hf₁)).mono ?_
      rintro r w₂ ⟨hr, hf₂, hon₂, hq₂⟩
      have hself : (w₂.inst.cell c) = w₁.inst.cell c := hf₂.cell c fun h => by have := h.1; omega
      refine ⟨hr, (hf₁.widen (Nat.le_refl _) hle).trans (hf₂.widen (Nat.le_of_lt hlt) (Nat.le_refl _)),
        hon₁.join hcs hf₂ hon₂, fun d hd => ?_⟩
      rcases List.mem_cons.mp hd with rfl | hd
      · rw [Instance.Running, hself]
        exact hq₁
      · exact hq₂ d hd

/-- When the loop ends with a result, it is `running` exactly if one child is left running. -/
theorem tickWhile_kept {keep : Status} (hkeep : keep ≠ .running) (hhi : hi ≤ b.size) :
    ∀ {cs : List Nat} {lo : Nat}, b.Tiles hi lo cs → (∀ c ∈ cs, C.Kept c (tk c)) →
    ∀ w : World b, C.On w.inst lo hi → (tickWhile keep tk cs).Yields w fun r w' =>
      w.inst.Frame (Within lo hi) w'.inst ∧ C.On w'.inst lo hi ∧
        match r with
        | .ok st => (∀ c ∈ cs, w'.inst.Running c → st = .running) ∧
            (st = .running → ∃ c ∈ cs, ∀ d ∈ cs, w'.inst.Running d ↔ d = c)
        | .error e => C.fault e
  | [], _, _, _, w, hon => ⟨Instance.Frame.refl _ _, hon, fun _ hc => absurd hc List.not_mem_nil,
      fun h => absurd h hkeep⟩
  | c :: cs, lo, ⟨hc, hlt, hle, ht⟩, hkept, w, hon => by
      subst hc
      have hcs : c < b.size := by omega
      have hfirst : ∀ d ∈ cs, d ≠ c := fun d hd => by
        have := (ht.mem hd).1
        omega
      rw [tickWhile, Run.yields_bind]
      refine (hkept c List.mem_cons_self w (hon.mono (Nat.le_refl _) hle)).mono ?_
      rintro r w₁ ⟨hf₁, hon₁, hr⟩
      have hf₁' : w.inst.Frame (Within c hi) w₁.inst := hf₁.widen (Nat.le_refl _) hle
      have hrest : C.On w₁.inst (b.stop c) hi := hon.rest hcs hhi hf₁
      cases r with
      | error e => exact ⟨hf₁', hon₁.append hrest, hr⟩
      | ok st =>
          have hlater : ∀ {w₂ : World b}, w₁.inst.Frame (Within (b.stop c) hi) w₂.inst →
              (w₂.inst.Running c ↔ st = .running) := fun hf => by
            have hself := hf.cell c fun h => by have := h.1; omega
            rw [Instance.Running, hself, hr, Option.some.injEq]
          by_cases hst : st = keep
          · simp only [hst, ↓reduceIte]
            refine (tickWhile_kept hkeep hhi ht (fun d hd => hkept d (List.mem_cons_of_mem _ hd)) w₁
              hrest).mono ?_
            rintro r w₂ ⟨hf₂, hon₂, hr₂⟩
            refine ⟨hf₁'.trans (hf₂.widen (Nat.le_of_lt hlt) (Nat.le_refl _)), hon₁.join hcs hf₂ hon₂, ?_⟩
            cases r with
            | error e => exact hr₂
            | ok st₂ =>
                have hquiet : ¬ w₂.inst.Running c := fun hrun =>
                  hkeep (hst.symm.trans ((hlater hf₂).mp hrun))
                refine ⟨List.forall_mem_cons.mpr ⟨fun hrun => absurd hrun hquiet, hr₂.1⟩, fun h => ?_⟩
                obtain ⟨d, hd, hone⟩ := hr₂.2 h
                refine ⟨d, List.mem_cons_of_mem _ hd, List.forall_mem_cons.mpr ⟨?_, hone⟩⟩
                exact ⟨fun hrun => absurd hrun hquiet, fun h => absurd h.symm (hfirst d hd)⟩
          · simp only [hst, ↓reduceIte, Run.yields_bind, Run.yields_pure]
            refine (abortRunning_kept hhi ht w₁ hrest).mono ?_
            rintro r w₂ ⟨hr₂, hf₂, hon₂, hq⟩
            subst hr₂
            refine ⟨hf₁'.trans (hf₂.widen (Nat.le_of_lt hlt) (Nat.le_refl _)), hon₁.join hcs hf₂ hon₂,
              List.forall_mem_cons.mpr ⟨(hlater hf₂).mp, fun d hd hrun => absurd hrun (hq d hd)⟩,
              fun h => ⟨c, List.mem_cons_self, List.forall_mem_cons.mpr ⟨?_, fun d hd => ?_⟩⟩⟩
            · exact ⟨fun _ => rfl, fun _ => (hlater hf₂).mpr h⟩
            · exact ⟨fun hrun => absurd hrun (hq d hd), fun h => absurd h (hfirst d hd)⟩

/-- The tick of a first child, on the nodes below its parent. -/
theorem firstChild_kept (hi : i < b.size) (hkept : ∀ c ∈ b.childList i, C.Kept c (tk c)) {cs : List Nat}
    (hcs : b.childList i = c :: cs) (w : World b) (hon : C.On w.inst (i + 1) (b.stop i)) :
    (tk c).Yields w fun r w' => w.inst.Frame (Within c (b.stop c)) w'.inst ∧
      w.inst.Frame (Within (i + 1) (b.stop i)) w'.inst ∧ C.On w'.inst (i + 1) (b.stop i) ∧
        match r with
        | .ok st => (w'.inst.cell c).state = some st
        | .error e => C.fault e := by
  have ht := Blob.tiles hi
  rw [hcs] at ht
  obtain ⟨rfl, hlt, hle, ht⟩ := ht
  have hcb : i + 1 < b.size := by
    have := Blob.stop_le hi
    omega
  refine (hkept (i + 1) (by rw [hcs]; exact List.mem_cons_self) w (hon.mono (Nat.le_refl _) hle)).mono ?_
  rintro r w' ⟨hf, hon', hr⟩
  exact ⟨hf, hf.widen (Nat.le_refl _) hle, hon'.append (hon.rest hcb (Blob.stop_le hi) hf), hr⟩

theorem onlyChild_yields (hi : i < b.size) {w : World b} {Q : Except Fault Nat → World b → Prop} :
    (onlyChild i : Run b Nat).Yields w Q ↔ match b.childList i with
      | [] => Q (.error (.error (.missingChild i))) w
      | c :: _ => Q (.ok c) w := by
  rw [onlyChild, Run.yields_bind, Run.children_yields hi]
  cases b.childList i <;> exact Iff.rfl

/-- What a repetition does with the result of its child. -/
def countResult (i : Nat) (s : Status) : Run b Status := do
  let d ← Run.readHead .repeatData i
  Run.writeHead .repeatData i (d.step s).1
  return (d.step s).2

theorem repetition_tick (rs : Registries) (cb : Callbacks b) (i : Nat) :
    repetition.tick rs cb i = onlyChild i >>= fun child => cb.tick child >>= countResult i := rfl

theorem inverter_tick (rs : Registries) (cb : Callbacks b) (i : Nat) :
    inverter.tick rs cb i = onlyChild i >>= fun child => cb.tick child >>= fun s => pure s.invert := rfl

theorem force_tick (rs : Registries) (cb : Callbacks b) (i : Nat) :
    force.tick rs cb i = onlyChild i >>= fun child => Run.readStatus i 0 >>= fun forced =>
      cb.tick child >>= fun s => pure (if s.isRunning then s else forced) := rfl

end Library

end BehaviorTree
