import BehaviorTree.Proofs.Library.Slots

/-!
# Bytes that repeat results

When a pass of a parallel over its slots ends well, each of its bytes repeats the result recorded for the
child of that slot. Before the pass that may be wrong of the slots that are still due.
-/

namespace BehaviorTree

open Run

variable {b : Blob} {s s' : Instance b} {i : Nat}

/-- Byte `k` of node `p` repeats the result recorded for node `c`. -/
def Instance.Echoes (s : Instance b) (p k c : Nat) : Prop :=
  ∃ st : Status, (s.cell c).state = some st ∧ (s.cell p).bytes[k]? = some st.bits

namespace Library

variable {C : Contract b} {tk : Nat → Run b Status} {c k hi : Nat}

/-- The child of a slot is to be ticked, or its byte repeats its result. -/
def Due (s : Instance b) (i k c : Nat) : Prop :=
  (s.cell i).bytes[k]? = some Status.running.bits ∨ s.Echoes i k c

theorem Due.mark (h : Due s i k c) (hrun : s.Running c) :
    (s.cell i).bytes[k]? = some Status.running.bits := by
  rcases h with h | ⟨st, hst, hbyte⟩
  · exact h
  · rw [hrun] at hst
    rw [hbyte, ← Option.some.inj hst]

theorem Due.congr (h : Due s i k c) (hc : s'.cell c = s.cell c)
    (hbyte : (s'.cell i).bytes[k]? = (s.cell i).bytes[k]?) : Due s' i k c := by
  unfold Due Instance.Echoes
  rw [hc, hbyte]
  exact h

theorem tickSlot_echoes (hic : i < c) (hc : c < b.size) (hkept : C.Kept c (tk c)) (w : World b)
    (hon : C.On w.inst c (b.stop c)) (hdue : Due w.inst i k c) :
    (tickSlot tk i c k).Yields w fun r w' => ∀ st, r = .ok st → w'.inst.Echoes i k c := by
  have hi : i < b.size := Nat.lt_trans hic hc
  simp only [tickSlot, yields_bind, readStatus_yields hi]
  cases hst : (w.inst.cell i).status i k with
  | error e => exact fun _ he => by cases he
  | ok st =>
      have hbyte := Cell.status_eq_ok.mp hst
      obtain ⟨hk, -⟩ := List.getElem?_eq_some_iff.mp hbyte
      simp only [Checked.ofExcept_ok]
      cases hrun : st.isRunning with
      | false =>
          refine fun _ _ => hdue.resolve_left fun hrunning => ?_
          rw [hbyte, Option.some.injEq] at hrunning
          rw [Status.bits_injective hrunning] at hrun
          cases hrun
      | true =>
          simp only [↓reduceIte, yields_bind, yields_pure]
          refine (hkept w hon).mono ?_
          rintro r w₁ ⟨hf₁, hon₁, hr⟩
          have hself : w₁.inst.cell i = w.inst.cell i := hf₁.cell i fun h => Nat.not_lt.mpr h.1 hic
          cases r with
          | error e => exact fun _ he => by cases he
          | ok st' =>
              rw [← hself] at hk
              refine (writeStatus_yields hi hk st').mono ?_
              rintro r w₂ ⟨rfl, hset, -⟩ _ -
              refine ⟨st', ?_, ?_⟩
              · rw [hset.other c (Nat.ne_of_gt hic)]
                exact hr
              · rw [hset.self, List.getElem?_set_self hk]

/-- After a whole pass, the bytes repeat the results of the children. -/
theorem tickSlots_echoes (hhi : hi ≤ b.size) : ∀ {cs : List Nat} {lo k : Nat}, i < lo → b.Tiles hi lo cs →
    (∀ c ∈ cs, C.Kept c (tk c)) → ∀ w : World b, C.On w.inst lo hi →
    (∀ x ∈ cs.zipIdx k, Due w.inst i x.2 x.1) →
    (∀ c : Cell, ∀ k e, c.status i k = .error e → C.fault (.error e)) →
    (tickSlots tk i (cs.zipIdx k)).Yields w fun r w' =>
      ∀ rs, r = .ok rs → ∀ x ∈ cs.zipIdx k, w'.inst.Echoes i x.2 x.1
  | [], lo, k, _, _, _, w, _, _, _ => fun _ _ x hx => absurd hx List.not_mem_nil
  | c :: cs, lo, k, hlo, ⟨hc, hlt, hle, ht⟩, hkept, w, hon, hdue, hread => by
      subst hc
      have hcs : c < b.size := by omega
      have hfirst := hkept c List.mem_cons_self
      have honc := hon.mono (Nat.le_refl _) hle
      rw [List.zipIdx_cons, List.forall_mem_cons] at hdue
      rw [List.zipIdx_cons, tickSlots_cons, yields_bind]
      refine ((tickSlot_kept hlo hcs hfirst w honc hdue.1.mark fun e => hread _ k e).and
        (tickSlot_echoes hlo hcs hfirst w honc hdue.1)).mono ?_
      rintro r w₁ ⟨⟨h₁, hother, -⟩, hecho₁⟩
      cases r with
      | error e => exact fun _ he => by cases he
      | ok st =>
          have hon₁ : C.On w₁.inst (b.stop c) hi := h₁.on_rest hlo hlt hhi hon
          have hdue₁ : ∀ x ∈ cs.zipIdx (k + 1), Due w₁.inst i x.2 x.1 := by
            intro x hx
            have hstop := (ht.mem (List.fst_mem_of_mem_zipIdx hx)).1
            refine (hdue.2 x hx).congr (h₁.cell hlo (Nat.lt_of_lt_of_le hlt hstop) hstop) (hother _ ?_)
            have := List.le_snd_of_mem_zipIdx hx
            omega
          have hmarked : Marked w₁.inst i (k + 1) cs := fun x hx => (hdue₁ x hx).mark
          have hrest := fun d hd => hkept d (List.mem_cons_of_mem c hd)
          simp only [yields_bind, yields_pure]
          refine ((tickSlots_kept hhi (by omega) ht hrest w₁ hon₁ hmarked fun _ _ e => hread _ _ e).and
            (tickSlots_echoes hhi (by omega) ht hrest w₁ hon₁ hdue₁ hread)).mono ?_
          rintro r w₂ ⟨⟨h₂, -⟩, hecho₂⟩
          cases r with
          | error e => exact fun _ he => by cases he
          | ok rs =>
              refine fun _ _ => List.forall_mem_cons.mpr ⟨?_, hecho₂ rs rfl⟩
              obtain ⟨st', hst', hbyte⟩ := hecho₁ st rfl
              refine ⟨st', ?_, by rw [h₂.before k (Nat.lt_succ_self k), hbyte]⟩
              rw [h₂.frame.cell c fun hw => ?_, hst']
              rcases hw with hw | hw
              · omega
              · exact Nat.not_lt.mpr hw.1 hlt

/-- A pass that comes to `running` has read or written that in one of its slots. -/
theorem exists_running_slot {bs : List UInt8} {n : Nat} {rs : List Status}
    (h : window bs 0 n = rs.map Status.bits) (hr : combine rs = .running) :
    ∃ k < n, bs[k]? = some Status.running.bits := by
  obtain ⟨k, hk, hst⟩ := List.mem_iff_getElem.mp (combine_eq_running.mp hr)
  have hlen : rs.length ≤ n := by
    rw [← List.length_map (f := Status.bits), ← h]
    exact List.length_take_le _ _
  refine ⟨k, Nat.lt_of_lt_of_le hk hlen, ?_⟩
  have hat := congrArg (·[k]?) h
  simp only [getElem?_window, if_pos (Nat.lt_of_lt_of_le hk hlen), Nat.zero_add] at hat
  rw [hat, List.getElem?_map, List.getElem?_eq_getElem hk, hst]
  rfl

end Library

end BehaviorTree
