import BehaviorTree.Proofs.Library.Echoes
import BehaviorTree.Proofs.Library.Faults
import BehaviorTree.Proofs.Library.Running

/-!
# The active part of a composite

Between two ticks of the root, a running sequence or selector has exactly one running child and a running
inverter has its first child running. The bytes of a running parallel repeat the results of its children,
and one of them is running, so only a parallel without children can find none.
-/

namespace BehaviorTree

open Library Run

variable {b : Blob} {m : Machine} {s s' : Instance b} {i : Nat}

/-- The running children of a running node with this behavior, and what its data says of its children. -/
structure Behavior.ActiveShape (bh : Behavior) (s : Instance b) (p : Nat) : Prop where
  one : bh = sequence ∨ bh = selector → ∃ c ∈ b.childList p, ∀ d ∈ b.childList p, s.Running d ↔ d = c
  first : bh = inverter → ∃ c cs, b.childList p = c :: cs ∧ s.Running c
  echo : bh = parallel → (∃ c ∈ b.childList p, s.Running c) ∧ ∀ k c, b.IsChild p k c → s.Echoes p k c

namespace Behavior.ActiveShape

variable {bh : Behavior}

/-- The shape is a matter of the node's data and the results of its children. -/
theorem congr (h : bh.ActiveShape s i) (hbytes : (s'.cell i).bytes = (s.cell i).bytes)
    (hchild : ∀ c ∈ b.childList i, s'.cell c = s.cell c) : bh.ActiveShape s' i where
  one hbh := by
    obtain ⟨c, hc, hone⟩ := h.one hbh
    exact ⟨c, hc, fun d hd => by rw [Instance.Running, hchild d hd]; exact hone d hd⟩
  first hbh := by
    obtain ⟨c, cs, hcs, hrun⟩ := h.first hbh
    exact ⟨c, cs, hcs, by rw [Instance.Running, hchild c (by rw [hcs]; exact List.mem_cons_self)]; exact hrun⟩
  echo hbh := by
    obtain ⟨⟨c, hc, hrun⟩, hecho⟩ := h.echo hbh
    refine ⟨⟨c, hc, by rw [Instance.Running, hchild c hc]; exact hrun⟩, fun k d hd => ?_⟩
    obtain ⟨st, hst, hbyte⟩ := hecho k d hd
    exact ⟨st, by rw [hchild d hd.mem, hst], by rw [hbytes, hbyte]⟩

theorem of_chain (hbh : bh = sequence ∨ bh = selector)
    (h : ∃ c ∈ b.childList i, ∀ d ∈ b.childList i, s.Running d ↔ d = c) : bh.ActiveShape s i where
  one _ := h
  first hinv := by
    rcases hbh with rfl | rfl
    · exact absurd (congrArg Behavior.name hinv) (by decide)
    · exact absurd (congrArg Behavior.name hinv) (by decide)
  echo hpar := by
    rcases hbh with rfl | rfl
    · exact absurd (congrArg Behavior.name hpar) (by decide)
    · exact absurd (congrArg Behavior.name hpar) (by decide)

theorem of_inverter {c : Nat} {cs : List Nat} (hcs : b.childList i = c :: cs) (h : s.Running c) :
    inverter.ActiveShape s i where
  one hbh := by
    rcases hbh with hbh | hbh
    · exact absurd (congrArg Behavior.name hbh) (by decide)
    · exact absurd (congrArg Behavior.name hbh) (by decide)
  first _ := ⟨c, cs, hcs, h⟩
  echo hpar := absurd (congrArg Behavior.name hpar) (by decide)

theorem of_parallel (hrun : ∃ c ∈ b.childList i, s.Running c)
    (hecho : ∀ k c, b.IsChild i k c → s.Echoes i k c) : parallel.ActiveShape s i where
  one hbh := by
    rcases hbh with hbh | hbh
    · exact absurd (congrArg Behavior.name hbh) (by decide)
    · exact absurd (congrArg Behavior.name hbh) (by decide)
  first hinv := absurd (congrArg Behavior.name hinv) (by decide)
  echo _ := ⟨hrun, hecho⟩

theorem of_other (h : bh ∉ [sequence, selector, parallel, inverter]) : bh.ActiveShape s i := by
  simp only [List.mem_cons, List.not_mem_nil, or_false, not_or] at h
  exact ⟨fun hbh => absurd hbh (not_or.mpr ⟨h.1, h.2.1⟩), fun hbh => absurd hbh h.2.2.2,
    fun hbh => absurd hbh h.2.2.1⟩

end Behavior.ActiveShape

/-! ## The contract -/

/-- A function of the behavior of node `i` fails so. -/
def Behavior.Raises (bh : Behavior) (b : Blob) (i : Nat) (e : Fault) : Prop :=
  ∃ w : World b, ((bh.reset i).exec w).1 = .error e ∨
    ∃ (rs : Registries) (cb : Callbacks b), ((bh.tick rs cb i).exec w).1 = .error e

/-- If the fault is that a node has no running child, then this node is a parallel without children, or a node
of the tree with a behavior of the host said so. -/
def Machine.Explains (m : Machine) (b : Blob) (e : Fault) : Prop :=
  ∀ i, e = .error (.noRunningChild i) → (m.behaviorAt b i = .ok parallel ∧ b.children i = .ok []) ∨
    ∃ j bh, m.behaviorAt b j = .ok bh ∧ bh ∉ Library.behaviors.map (·.2) ∧ bh.Raises b j e

theorem Machine.Explains.of_not_idle {e : Fault} (h : ∀ i, e ≠ .error (.noRunningChild i)) : m.Explains b e :=
  fun i hi => absurd hi (h i)

theorem Checked.Plain.explains {α : Type} {x : Checked α} (h : x.Plain) {e : Fault} (he : x = .error e) :
    m.Explains b e := .of_not_idle fun i hi => by
  rw [hi] at he
  exact h _ he

namespace Machine

def shapes (m : Machine) (b : Blob) : Contract b where
  data _ _ := True
  fresh i bs := m.behaviorAt b i = .ok parallel → ∀ v ∈ bs, v = Status.running.bits
  ready s i := m.behaviorAt b i = .ok parallel →
    (∀ v ∈ (s.cell i).bytes, v = Status.running.bits) ∨ parallel.ActiveShape s i
  holds s p := s.Running p → ∀ bh, m.behaviorAt b p = .ok bh → bh.ActiveShape s p
  fault := m.Explains b
  data_defaults _ _ := trivial
  ready_of_cells hi h hr hpar := by
    rw [h _ ⟨Nat.le_refl _, Blob.lt_stop hi⟩]
    refine (hr hpar).imp_right fun hs => hs.congr (by rw [h _ ⟨Nat.le_refl _, Blob.lt_stop hi⟩]) fun c hc => ?_
    have := Blob.lt_of_mem_childList hi hc
    exact h c ⟨by omega, by omega⟩
  holds_of_cells hi h hs hrun bh hbh := by
    have hself := h _ ⟨Nat.le_refl _, Blob.lt_stop hi⟩
    rw [Instance.Running, hself] at hrun
    refine (hs hrun bh hbh).congr (by rw [hself]) fun c hc => ?_
    have := Blob.lt_of_mem_childList hi hc
    exact h c ⟨by omega, by omega⟩
  holds_of_quiet hi h hrun := absurd hrun (h _ ⟨Nat.le_refl _, Blob.lt_stop hi⟩)

theorem shapes_ends {bh : Behavior} (hbh : m.behaviorAt b i = .ok bh) {w w' : World b}
    {r : Except Fault Status} (hi : i < b.size) (hf : w.inst.Frame (Within i (b.stop i)) w'.inst)
    (hon : (m.shapes b).On w'.inst (i + 1) (b.stop i))
    (h : match r with
      | .ok st => st = .running → bh.ActiveShape w'.inst i
      | .error e => m.Explains b e) : (m.shapes b).Ends i w r w' := by
  refine ⟨hf, hon, trivial, ?_⟩
  cases r with
  | error e => exact h
  | ok st =>
      intro s' hself hother hrun bh' hbh'
      rw [hbh] at hbh'
      cases hbh'
      rw [Instance.Running, hself] at hrun
      refine (h (Option.some.inj hrun)).congr (by rw [hself]) fun c hc => hother c ?_
      have := (Blob.lt_of_mem_childList hi hc).1
      omega

theorem shapes_reset (hm : m.Standard) (hi : i < b.size) {bh : Behavior} (hbh : m.behaviorAt b i = .ok bh)
    (w : World b) : (bh.reset i).Yields w fun r w' => w.inst.OwnData i w'.inst ∧
      match r with
      | .ok _ => (m.shapes b).fresh i (w'.inst.cell i).bytes
      | .error e => m.Explains b e := by
  by_cases hlib : bh ∈ Library.behaviors.map (·.2)
  · obtain ⟨x, hx, rfl⟩ := List.mem_map.mp hlib
    by_cases hp : x.2 = parallel
    · obtain ⟨s', hs', hset⟩ := Instance.fill_sets w.inst hi Status.running.bits
      rw [hp]
      simp only [parallel, yields_update, hs']
      refine ⟨hset.ownData rfl, fun _ v hv => ?_⟩
      rw [hset.self] at hv
      exact List.eq_of_mem_replicate hv
    · rw [reset_of_ne hx hp, yields_pure]
      exact ⟨Instance.OwnData.refl i _, fun hpar => absurd (Except.ok.inj (hbh.symm.trans hpar)) hp⟩
  · refine (((hm.behaviorAt hbh).reset_ownData hi w).and (yields_exec _ _)).mono ?_
    rintro r w' ⟨hown, hexec⟩
    refine ⟨hown, ?_⟩
    cases r with
    | ok u =>
        intro hpar
        rw [hbh] at hpar
        cases hpar
        exact absurd (by simp [Library.behaviors]) hlib
    | error e => exact fun j hj => Or.inr ⟨i, bh, hbh, hlib, w, Or.inl (by rw [hexec])⟩

/-- What the data of a parallel says when its tick function starts. -/
theorem shapes_due {w : World b} {ss : List Status} (hbh : m.behaviorAt b i = .ok parallel)
    (hready : (m.shapes b).ready w.inst i)
    (hss : (w.inst.cell i).statuses i ((b.childList i).zipIdx.map (·.2)) = .ok ss) :
    (∀ x ∈ (b.childList i).zipIdx, Due w.inst i x.2 x.1) ∧ (b.childList i ≠ [] → .running ∈ ss) := by
  have hat : ∀ k c : Nat, (b.childList i)[k]? = some c → ∃ st ∈ ss, (w.inst.cell i).bytes[k]? = some st.bits :=
    fun k c hk => Cell.statuses_at hss k (List.mem_map.mpr ⟨(c, k), List.mem_zipIdx_iff_getElem?.mpr hk, rfl⟩)
  rcases hready hbh with hfresh | hshape
  · have hall : ∀ k c : Nat, (b.childList i)[k]? = some c → .running ∈ ss ∧
        (w.inst.cell i).bytes[k]? = some Status.running.bits := by
      intro k c hk
      obtain ⟨st, hst, hbyte⟩ := hat k c hk
      obtain rfl := Status.bits_injective (hfresh _ (List.mem_of_getElem? hbyte))
      exact ⟨hst, hbyte⟩
    refine ⟨fun x hx => Or.inl (hall x.2 x.1 (List.mem_zipIdx_iff_getElem?.mp hx)).2, fun hne => ?_⟩
    obtain ⟨c, cs, hcs⟩ := List.exists_cons_of_ne_nil hne
    exact (hall 0 c (by rw [hcs]; rfl)).1
  · obtain ⟨⟨c, hc, hrun⟩, hecho⟩ := hshape.echo rfl
    have hi : i < b.size := lt_of_behaviorAt hbh
    refine ⟨fun x hx => Or.inr (hecho x.2 x.1 ⟨hi, List.mem_zipIdx_iff_getElem?.mp hx⟩), fun _ => ?_⟩
    obtain ⟨k, hk⟩ := Blob.exists_isChild_of_mem hi hc
    obtain ⟨st, hst, hbyte⟩ := hat k c hk.2
    have hmark := Due.mark (Or.inr (hecho k c hk)) hrun
    rw [hbyte, Option.some.injEq] at hmark
    rw [← Status.bits_injective hmark]
    exact hst

section Composites

variable {cb : Callbacks b} (hi : i < b.size)
  (hkept : ∀ c ∈ b.childList i, (m.shapes b).Kept c (cb.tick c))

include hi hkept

theorem shapes_tickWhile {bh : Behavior} (hbh : m.behaviorAt b i = .ok bh)
    (hs : bh = sequence ∨ bh = selector) {keep : Status} (hkeep : keep ≠ .running) :
    (m.shapes b).Served i (do tickWhile keep cb.tick (← Run.children i)) := by
  intro w hon _ _
  simp only [yields_bind, children_yields hi]
  refine (tickWhile_kept hkeep (Blob.stop_le hi) (Blob.tiles hi) hkept w hon).mono ?_
  rintro r w' ⟨hf, hon', hr⟩
  refine shapes_ends hbh hi (hf.widen (Nat.le_succ i) (Nat.le_refl _)) hon' ?_
  cases r with
  | error e => exact hr
  | ok st => exact fun hst => .of_chain hs (hr.2 hst)

theorem shapes_parallel (hbh : m.behaviorAt b i = .ok parallel) (rs : Registries) :
    (m.shapes b).Served i (parallel.tick rs cb i) := by
  intro w hon _ hready
  have hlt := Blob.lt_stop hi
  have hread : ∀ c : Cell, ∀ k e, c.status i k = .error e → m.Explains b (.error e) := fun c k e he =>
    (Checked.Plain.ofExcept fun _ => Cell.status_error).explains (congrArg Checked.ofExcept he)
  simp only [parallel, yields_bind, children_yields hi, anyRunning_yields hi]
  cases hss : (w.inst.cell i).statuses i ((b.childList i).zipIdx.map (·.2)) with
  | error e =>
      obtain ⟨k, -, he⟩ := Cell.statuses_error hss
      exact shapes_ends hbh hi (Instance.Frame.refl _ _) hon (hread _ k e he)
  | ok ss =>
      obtain ⟨hdue, hbusy⟩ := shapes_due hbh hready hss
      have hmap : Checked.ofExcept ((decide <| Status.running ∈ ·) <$> (.ok ss : Except Error _)) =
          .ok (decide (Status.running ∈ ss)) := rfl
      simp only [hmap]
      by_cases hany : Status.running ∈ ss
      · simp only [hany, decide_true, ↓reduceIte, yields_bind, yields_pure]
        have hmarked : Marked w.inst i 0 (b.childList i) := fun x hx => (hdue x hx).mark
        refine ((tickSlots_kept (Blob.stop_le hi) (Nat.lt_succ_self i) (Blob.tiles hi) hkept w hon hmarked
          fun _ _ e => hread _ _ e).and (tickSlots_echoes (Blob.stop_le hi) (Nat.lt_succ_self i)
          (Blob.tiles hi) hkept w hon hdue hread)).mono ?_
        rintro r w' ⟨⟨hpass, hr⟩, hecho⟩
        have hf : w.inst.Frame (Within i (b.stop i)) w'.inst := hpass.frame.mono fun j hj => by
          rcases hj with rfl | hj
          · exact ⟨Nat.le_refl _, hlt⟩
          · exact ⟨Nat.le_of_succ_le hj.1, hj.2⟩
        cases r with
        | error e => exact shapes_ends hbh hi hf hpass.on hr
        | ok rs =>
            have hecho' : ∀ k c, b.IsChild i k c → w'.inst.Echoes i k c := fun k c hk =>
              hecho rs rfl (c, k) (List.mem_zipIdx_iff_getElem?.mpr hk.2)
            refine shapes_ends hbh hi hf hpass.on fun hrun => .of_parallel ?_ hecho'
            obtain ⟨k, hk, hbyte⟩ := exists_running_slot hr hrun
            obtain ⟨st, hst, hbyte'⟩ := hecho' k _ ⟨hi, List.getElem?_eq_getElem hk⟩
            refine ⟨_, List.getElem_mem hk, ?_⟩
            rw [hbyte, Option.some.injEq] at hbyte'
            rw [Instance.Running, hst, Status.bits_injective hbyte']
      · simp only [hany, decide_false, Bool.false_eq_true, ↓reduceIte, yields_bind, yields_fail]
        refine shapes_ends hbh hi (Instance.Frame.refl _ _) hon fun j hj => ?_
        cases hj
        refine Or.inl ⟨hbh, ?_⟩
        rw [Blob.children_eq hi, Decidable.not_not.mp (mt hbusy hany)]

theorem shapes_single {bh : Behavior} (hbh : m.behaviorAt b i = .ok bh)
    (hs : bh ∈ [repetition, inverter, force]) {post : Status → Run b Status}
    (hpost : ∀ st (w : World b), (post st).Yields w fun r w' => w.inst.OwnData i w'.inst ∧ Checked.Plain r ∧
      (bh = inverter → r = .ok .running → st = .running)) {c : Nat} {cs : List Nat}
    (hcs : b.childList i = c :: cs) (w : World b) (hon : (m.shapes b).On w.inst (i + 1) (b.stop i)) :
    (cb.tick c >>= post).Yields w ((m.shapes b).Ends i w) := by
  rw [yields_bind]
  refine (firstChild_kept hi hkept hcs w hon).mono ?_
  rintro r w₁ ⟨-, hf₁, hon₁, hr⟩
  have hf₁' : w.inst.Frame (Within i (b.stop i)) w₁.inst := hf₁.widen (Nat.le_succ i) (Nat.le_refl _)
  cases r with
  | error e => exact shapes_ends hbh hi hf₁' hon₁ hr
  | ok st =>
      refine (hpost st w₁).mono ?_
      rintro r w₂ ⟨hown, hplain, hrun⟩
      refine shapes_ends hbh hi (hf₁'.trans (hown.toFrame.subtree hi))
        (hon₁.after (Blob.stop_le hi) hown.toFrame fun j hj => by omega) ?_
      cases r with
      | error e => exact hplain.explains rfl
      | ok st' =>
          rintro rfl
          by_cases hinv : bh = inverter
          · have hci : c ≠ i := by
              have := (Blob.lt_of_mem_childList hi (hcs ▸ List.mem_cons_self)).1
              omega
            subst hinv
            refine .of_inverter hcs ?_
            rw [Instance.Running, hown.cell c hci, hr, hrun rfl rfl]
          · refine .of_other fun hother => ?_
            simp only [List.mem_cons, List.not_mem_nil, or_false, hinv, false_or] at hs hother
            have hnames := hother.imp (congrArg Behavior.name)
              (Or.imp (congrArg Behavior.name) (congrArg Behavior.name))
            rcases hs with rfl | rfl
            · exact absurd hnames (by decide)
            · exact absurd hnames (by decide)

omit hkept in
theorem shapes_childless {bh : Behavior} (hbh : m.behaviorAt b i = .ok bh) (w : World b)
    (hon : (m.shapes b).On w.inst (i + 1) (b.stop i)) :
    (m.shapes b).Ends i w (.error (.error (.missingChild i))) w :=
  shapes_ends hbh hi (Instance.Frame.refl _ _) hon (.of_not_idle fun _ => nofun)

theorem shapes_inverter (hbh : m.behaviorAt b i = .ok inverter) (rs : Registries) :
    (m.shapes b).Served i (inverter.tick rs cb i) := by
  intro w hon _ _
  rw [inverter_tick, yields_bind, onlyChild_yields hi]
  cases hcs : b.childList i with
  | nil => exact shapes_childless hi hbh w hon
  | cons c cs =>
      have hpost : ∀ (st : Status) (w : World b), (pure st.invert : Run b Status).Yields w fun r w' =>
          w.inst.OwnData i w'.inst ∧ Checked.Plain r ∧
            (inverter = inverter → r = .ok .running → st = .running) := by
        refine fun st w => ⟨Instance.OwnData.refl i _, .ok _, fun _ hrun => ?_⟩
        rw [← st.invert_invert, Except.ok.inj hrun]
        rfl
      exact shapes_single hi hkept hbh (by simp) hpost hcs w hon

theorem shapes_force (hbh : m.behaviorAt b i = .ok force) (rs : Registries) :
    (m.shapes b).Served i (force.tick rs cb i) := by
  intro w hon _ _
  rw [force_tick, yields_bind, onlyChild_yields hi]
  cases hcs : b.childList i with
  | nil => exact shapes_childless hi hbh w hon
  | cons c cs =>
      dsimp only
      rw [yields_bind, readStatus_yields hi]
      cases hforced : (w.inst.cell i).status i 0 with
      | error e =>
          exact shapes_ends hbh hi (Instance.Frame.refl _ _) hon
            ((Checked.Plain.ofExcept fun _ => Cell.status_error).explains (congrArg Checked.ofExcept hforced))
      | ok forced =>
          have hpost : ∀ (st : Status) (w : World b),
              (pure (if st.isRunning then st else forced) : Run b Status).Yields w fun r w' =>
                w.inst.OwnData i w'.inst ∧ Checked.Plain r ∧
                (force = inverter → r = .ok .running → st = .running) := fun st w =>
            ⟨Instance.OwnData.refl i _, .ok _, fun h => absurd (congrArg Behavior.name h) (by decide)⟩
          exact shapes_single hi hkept hbh (by simp) hpost hcs w hon

theorem shapes_repetition (hbh : m.behaviorAt b i = .ok repetition) (rs : Registries) :
    (m.shapes b).Served i (repetition.tick rs cb i) := by
  intro w hon _ _
  rw [repetition_tick, yields_bind, onlyChild_yields hi]
  cases hcs : b.childList i with
  | nil => exact shapes_childless hi hbh w hon
  | cons c cs =>
      refine shapes_single hi hkept hbh (by simp) (fun st w => ⟨?_, countResult_plain hi st w, ?_⟩) hcs w hon
      · exact countResult_own i st w
      · exact fun h => absurd (congrArg Behavior.name h) (by decide)

end Composites

theorem shapes_leaf (hm : m.Standard) (hi : i < b.size) {bh : Behavior} (hbh : m.behaviorAt b i = .ok bh)
    (hleaf : bh ∉ composites) (cb : Callbacks b) :
    (m.shapes b).Served i (bh.tick m.registries cb i) := by
  intro w hon _ _
  refine ((((hm.behaviorAt hbh).isLeaf hleaf).tick m.registries cb i w).and (yields_exec _ _)).mono ?_
  rintro r w' ⟨hown, hexec⟩
  refine shapes_ends hbh hi (hown.toFrame.subtree hi)
    (hon.after (Blob.stop_le hi) hown.toFrame fun j hj => by omega) ?_
  cases r with
  | ok st =>
      refine fun _ => .of_other fun h => hleaf ?_
      simp only [composites, List.mem_cons, List.not_mem_nil, or_false] at h ⊢
      rcases h with h | h | h | h <;> simp [h]
  | error e =>
      by_cases hlib : bh ∈ Library.behaviors.map (·.2)
      · obtain ⟨x, hx, rfl⟩ := List.mem_map.mp hlib
        have hplain : (x.2.tick m.registries cb i).Plain := by
          rcases leaf_cases hx hleaf with rfl | rfl
          · exact fixed_plain m.registries cb i
          · exact delay_plain m.registries cb hi
        have hw : Checked.Plain ((x.2.tick m.registries cb i).exec w).1 := hplain w
        rw [hexec] at hw
        exact hw.explains rfl
      · exact fun j hj => Or.inr ⟨i, bh, hbh, hlib, w, Or.inr ⟨m.registries, cb, by rw [hexec]⟩⟩

theorem shapes_upheld (hm : m.Standard) : (m.shapes b).Upheld m where
  unknown i _ _ he := (m.behaviorAt_plain b i).explains he
  tooDeep _ _ := .of_not_idle fun _ => nofun
  untraced _ _ _ _ _ := .of_not_idle fun _ => nofun
  reset i hi bh hbh w _ := (shapes_reset hm hi hbh w).mono fun _ _ h => ⟨h.1, trivial, h.2⟩
  start i hi s s' hon hrun hown := by
    refine ⟨fun hrun' => ?_, fun hfresh hpar => Or.inl (hfresh hpar)⟩
    rw [Instance.Running, hown.state] at hrun'
    exact absurd hrun' hrun
  resume i hi s hon hrun hpar := Or.inr ((hon i ⟨Nat.le_refl _, Blob.lt_stop hi⟩).2 hrun parallel hpar)
  tick i hi bh hbh cb hkept := by
    by_cases hc : bh ∈ composites
    · simp only [composites, List.mem_cons, List.not_mem_nil, or_false] at hc
      rcases hc with rfl | rfl | rfl | rfl | rfl | rfl
      · exact shapes_tickWhile hi hkept hbh (Or.inl rfl) (by decide)
      · exact shapes_tickWhile hi hkept hbh (Or.inr rfl) (by decide)
      · exact shapes_parallel hi hkept hbh _
      · exact shapes_repetition hi hkept hbh _
      · exact shapes_inverter hi hkept hbh _
      · exact shapes_force hi hkept hbh _
    · exact shapes_leaf hm hi hbh hc cb

end Machine

/-- The calls of a host that leaves the nodes below the root to the tree. -/
def Act.DrivesRoot : Act → Prop
  | .tick | .reset => True
  | _ => False

instance : DecidablePred Act.DrivesRoot
  | .tick | .reset => isTrue trivial
  | .tickAt _ | .resetAt _ | .abortAt _ | .restoreAt _ | .restoreAll => isFalse id

/-- No call on the root breaks a contract, and it fails as the contract says. -/
theorem Contract.Upheld.root_between {C : Contract b} (h : C.Upheld m) {t : Tree b} (ht : C.Between t) {a : Act}
    (ha : a.DrivesRoot) (bb : Blackboard) :
    C.Between (t.call m bb a).2.1 ∧ ∀ e, (t.call m bb a).1 = .error e → C.fault e := by
  cases a with
  | tick =>
      obtain ⟨hb, he⟩ := h.tick_between ht bb
      exact ⟨hb, fun e hr => he e (Checked.map_eq_error.mp hr)⟩
  | reset =>
      obtain ⟨hb, he⟩ := h.reset_between ht bb
      exact ⟨hb, fun e hr => he e (Checked.map_eq_error.mp hr)⟩
  | _ => exact ha.elim

/-- Between two calls the running composites have the right running children. So only a parallel without
children, or a behavior of the host, says that no child is running. -/
theorem active_shape (hm : m.Standard) (acts : List (Act × Blackboard))
    (hacts : ∀ x ∈ acts, x.1.DrivesRoot) :
    (∀ p bh, ((Tree.new b).after m acts).inst.Running p → m.behaviorAt b p = .ok bh →
      bh.ActiveShape ((Tree.new b).after m acts).inst p) ∧
    ∀ (a : Act) (bb : Blackboard) (e : Fault), a.DrivesRoot →
      (((Tree.new b).after m acts).call m bb a).1 = .error e → m.Explains b e := by
  have hup := Machine.shapes_upheld (b := b) hm
  have hbetween : (m.shapes b).Between ((Tree.new b).after m acts) :=
    Tree.after_induction (P := (m.shapes b).Between) (A := Act.DrivesRoot)
      (fun _ _ bb ha ht => (hup.root_between ht ha bb).1) acts hacts Contract.between_new
  refine ⟨fun p bh hrun hbh => (hbetween.everywhere p ⟨Nat.zero_le p, hrun.lt⟩).2 hrun bh hbh, ?_⟩
  exact fun a bb e ha he => (hup.root_between hbetween ha bb).2 e he

def Blob.halfDone : Blob :=
  ⟨⟨#[parallelId, fixedId, fixedId], #[3, 2, 3], #[0, 8, 16], #[2, 1, 1], #[0x0404, 4, 1]⟩, by decide⟩

theorem active_shape_halfDone : ((Tree.new .halfDone).after .ofLibrary [(.tick, .empty)]).inst.Running 0 ∧
    parallel.ActiveShape ((Tree.new .halfDone).after .ofLibrary [(.tick, .empty)]).inst 0 ∧
    (((Tree.new .halfDone).after .ofLibrary [(.tick, .empty)]).inst.cell 0).bytes =
      [Status.running.bits, Status.success.bits] := by
  have hrun : ((Tree.new .halfDone).after .ofLibrary [(.tick, .empty)]).inst.Running 0 := by decide +kernel
  exact ⟨hrun, (active_shape (b := .halfDone) .ofLibrary [(.tick, .empty)] (by decide)).1 0 parallel hrun rfl,
    by decide +kernel⟩

end BehaviorTree
