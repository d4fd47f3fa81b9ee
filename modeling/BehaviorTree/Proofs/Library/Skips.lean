import BehaviorTree.Proofs.Library.Running

/-!
# Children that are not ticked

A parallel passes over the children whose result bytes are not `running`. Nothing about its tick depends on
what a tick of such a child would do.
-/

namespace BehaviorTree

open Run

variable {b : Blob} {m : Machine} {i : Nat}

/-- A tick of node `i` does not tick node `c`: it does the same whatever a tick of `c` does. -/
def Machine.Skips (m : Machine) (room i c : Nat) (w : World b) : Prop :=
  ∀ tk : Nat → Run b Status, (∀ d ≠ c, tk d = m.tickWithin room d) →
    (do let bh ← m.prepare i; m.perform i (bh.tick m.registries ⟨tk, m.reset⟩ i)).exec w =
      (m.tickWithin (room + 1) i).exec w

namespace Library

variable {C : Contract b} {tk tk' : Nat → Run b Status} {d hi : Nat}

theorem tickSlot_skips (hi : i < b.size) {k : Nat} {w : World b}
    (hbyte : (w.inst.cell i).bytes[k]? ≠ some Status.running.bits) (c : Nat) :
    (tickSlot tk' i c k).exec w = (tickSlot tk i c k).exec w := by
  have hread : (readStatus i k : Run b Status).exec w = (Checked.ofExcept ((w.inst.cell i).status i k), w) :=
    (readStatus_yields hi (Q := fun r w' => (readStatus i k : Run b Status).exec w = (r, w'))).mp (yields_exec _ w)
  rw [tickSlot, tickSlot, exec_bind, exec_bind, hread]
  cases hst : (w.inst.cell i).status i k with
  | error e => rfl
  | ok s =>
      have hrun : s.isRunning = false := by
        cases s with
        | running => exact absurd (Cell.status_eq_ok.mp hst) hbyte
        | success => rfl
        | failure => rfl
      simp only [Checked.ofExcept_ok, hrun, Bool.false_eq_true, ↓reduceIte]

/-- A pass over the slots, without the child `d`. -/
theorem tickSlots_skips (hhi : hi ≤ b.size) (hother : ∀ c ≠ d, tk' c = tk c)
    (hread : ∀ (c : Cell) (k : Nat) (e : Error), c.status i k = .error e → C.fault (.error e)) :
    ∀ {cs : List Nat} {lo k : Nat}, i < lo → b.Tiles hi lo cs → (∀ c ∈ cs, C.Kept c (tk c)) → ∀ w : World b,
    C.On w.inst lo hi → Marked w.inst i k cs →
    (∀ j, (d, j) ∈ cs.zipIdx k → (w.inst.cell i).bytes[j]? ≠ some Status.running.bits) →
    (tickSlots tk' i (cs.zipIdx k)).exec w = (tickSlots tk i (cs.zipIdx k)).exec w
  | [], _, _, _, _, _, _, _, _, _ => rfl
  | c :: cs, lo, k, hlo, ⟨hc, hlt, hle, ht⟩, hkept, w, hon, hm, hbyte => by
      subst hc
      have hcs : c < b.size := by omega
      have hi : i < b.size := Nat.lt_trans hlo hcs
      rw [marked_cons] at hm
      rw [List.zipIdx_cons] at hbyte ⊢
      have hslot : (tickSlot tk' i c k).exec w = (tickSlot tk i c k).exec w := by
        by_cases hd : c = d
        · exact tickSlot_skips hi (hbyte k (hd ▸ List.mem_cons_self)) c
        · rw [tickSlot, tickSlot, hother c hd]
      have hfirst := tickSlot_kept hlo hcs (hkept c List.mem_cons_self) w (hon.mono (Nat.le_refl _) hle) hm.1
        fun e => hread _ k e
      unfold Yields at hfirst
      rw [tickSlots_cons, tickSlots_cons, exec_bind, exec_bind, hslot]
      rcases hx : (tickSlot tk i c k).exec w with ⟨r, w₁⟩
      rw [hx] at hfirst
      obtain ⟨h₁, hsame, -⟩ := hfirst
      cases r with
      | error e => rfl
      | ok st =>
          have hm₁ : Marked w₁.inst i (k + 1) cs := by
            refine hm.2.congr (fun d hd => ?_) fun j hj => hsame j (by omega)
            have hstop := (ht.mem hd).1
            exact h₁.cell hlo (Nat.lt_of_lt_of_le hlt hstop) hstop
          have hrest := tickSlots_skips hhi hother hread (by omega) ht
            (fun c hc => hkept c (List.mem_cons_of_mem _ hc)) w₁ (h₁.on_rest hlo hlt hhi hon) hm₁ fun j hj => by
              rw [hsame j (by have := List.le_snd_of_mem_zipIdx hj; omega)]
              exact hbyte j (List.mem_cons_of_mem _ hj)
          simp only [exec_bind, hrest]

end Library

open Library

namespace Typing

variable {T : Typing b m} (hi : i < b.size) (hbh : m.behaviorAt b i = .ok parallel)
  (hread : ∀ (c : Cell) (k : Nat) (e : Error), c.status i k = .error e → T.fault (.error e)) {k c : Nat}
  (hc : b.IsChild i k c) {w : World b} (hbyte : (w.inst.cell i).bytes[k]? ≠ some Status.running.bits)

include hbh hread hc hbyte

theorem parallel_skips {cb cb' : Callbacks b} (hother : ∀ d ≠ c, cb'.tick d = cb.tick d)
    (hkept : ∀ c ∈ b.childList i, T.contract.Kept c (cb.tick c)) (hon : T.contract.On w.inst (i + 1) (b.stop i))
    (hready : T.contract.ready w.inst i) (rs : Registries) :
    (parallel.tick rs cb' i).exec w = (parallel.tick rs cb i).exec w := by
  have hi := hc.1
  have hslots : (tickSlots cb'.tick i (b.childList i).zipIdx).exec w =
      (tickSlots cb.tick i (b.childList i).zipIdx).exec w := by
    refine tickSlots_skips (Blob.stop_le hi) hother hread (Nat.lt_succ_self i) (Blob.tiles hi) hkept w hon
      (marked_of_tends hi hbh hready.1) fun j hj => ?_
    have hplace : j = k := hc.place_eq ⟨hi, List.mem_zipIdx_iff_getElem?.mp hj⟩
    rw [hplace]
    exact hbyte
  have hchildren : (children i : Run b (List Nat)).exec w = (.ok (b.childList i), w) := by
    rw [children, Blob.children_eq hi]
    rfl
  have hsame : ((anyRunning i ((b.childList i).zipIdx.map (·.2)) : Run b Bool).exec w).2 = w :=
    (anyRunning_yields hi (Q := fun _ w' => w' = w)).mpr rfl
  simp only [parallel, exec_bind, hchildren]
  generalize (anyRunning i ((b.childList i).zipIdx.map (·.2)) : Run b Bool).exec w = x at hsame
  obtain ⟨r, w'⟩ := x
  cases hsame
  cases r with
  | error e => rfl
  | ok any =>
      cases any with
      | false => rfl
      | true => simp only [↓reduceIte, exec_bind, hslots]

/-- A running parallel skips a child whose byte is not `running`. -/
theorem skips (room : Nat) (hrun : w.inst.Running i) (hon : T.contract.On w.inst i (b.stop i)) :
    m.Skips room i c w := by
  intro tk hother
  have hi := hc.1
  have hprepare : (m.prepare i : Run b Behavior).Yields w fun r w' => (r, w') = (.ok parallel, w) := by
    have hstate : w.inst.state i = .ok (some .running) := Instance.running_iff.mp hrun
    simp only [Machine.prepare, yields_bind, yields_lift, yields_inst, hbh, hstate, ne_eq, not_true_eq_false,
      ↓reduceIte, yields_pure]
  have hbelow : T.contract.On w.inst.enter (i + 1) (b.stop i) :=
    (hon.mono (Nat.le_succ i) (Nat.le_refl _)).congr (Blob.stop_le hi) fun _ _ => rfl
  have hready : T.contract.ready w.inst.enter i :=
    T.contract.ready_of_cells hi (fun j _ => w.inst.cell_enter j) (T.upheld.resume i hi w.inst hon hrun)
  have hexec : (m.prepare i : Run b Behavior).exec w = (.ok parallel, w) := hprepare
  rw [Machine.tickWithin, exec_bind, exec_bind, hexec]
  refine m.perform_congr (T.parallel_skips (w := { w with inst := w.inst.enter }) hbh hread hc hbyte hother
    (fun c hc => T.upheld.tickWithin_kept room c (Blob.lt_size_of_mem_childList hi hc)) hbelow hready m.registries)

end Typing

end BehaviorTree
