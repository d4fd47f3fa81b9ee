import BehaviorTree.Proofs.Library.Leaves
import BehaviorTree.Proofs.Library.Slots

/-!
# Running children have running parents

A running node is tended: its parent is running and will tick it or make it inactive in its next tick. On
top of that a typing says what is known of node data, and which faults may end a tick. Together they are
a contract that every machine upholds whose behaviors are those of the library and leaves.
-/

namespace BehaviorTree

namespace Library

def composites : List Behavior := [sequence, selector, parallel, repetition, inverter, force]

theorem reset_of_ne {x : TypeId × Behavior} (hx : x ∈ Library.behaviors) (hp : x.2 ≠ parallel) {b : Blob}
    {i : Nat} : (x.2.reset i : Run b Unit) = pure () := by
  simp only [Library.behaviors, List.mem_cons, List.not_mem_nil, or_false] at hx
  rcases hx with rfl | rfl | rfl | rfl | rfl | rfl | rfl | rfl
  · rfl
  · rfl
  · exact absurd rfl hp
  · rfl
  · rfl
  · rfl
  · rfl
  · rfl

theorem leaf_cases {x : TypeId × Behavior} (hx : x ∈ Library.behaviors) (hc : x.2 ∉ composites) :
    x = (fixedId, fixed) ∨ x = (delayId, delay) := by
  simp only [Library.behaviors, List.mem_cons, List.not_mem_nil, or_false] at hx
  rcases hx with rfl | rfl | rfl | rfl | rfl | rfl | rfl | rfl
  · exact absurd (by simp [composites]) hc
  · exact absurd (by simp [composites]) hc
  · exact absurd (by simp [composites]) hc
  · exact absurd (by simp [composites]) hc
  · exact absurd (by simp [composites]) hc
  · exact absurd (by simp [composites]) hc
  · exact Or.inl rfl
  · exact Or.inr rfl

end Library

open Library

/-- A running child number `k` of a running node with this behavior and data is ticked or aborted when
the node is ticked. -/
def Behavior.Tends (bh : Behavior) (bs : List UInt8) (k : Nat) : Prop :=
  bh = sequence ∨ bh = selector ∨ (bh = parallel ∧ bs[k]? = some Status.running.bits) ∨
    (bh ∈ [repetition, inverter, force] ∧ k = 0)

theorem Behavior.tends_parallel {bs : List UInt8} {k : Nat} :
    parallel.Tends bs k ↔ bs[k]? = some Status.running.bits := by
  have h : ∀ bh : Behavior, bh.name ≠ parallel.name → parallel ≠ bh := fun _ hn h => hn (h ▸ rfl)
  simp [Tends, h sequence (by decide), h selector (by decide), h repetition (by decide),
    h inverter (by decide), h force (by decide)]

theorem Behavior.tends_single {bh : Behavior} (hbh : bh ∈ [repetition, inverter, force]) {bs : List UInt8}
    {k : Nat} : bh.Tends bs k ↔ k = 0 := by
  have hne : ∀ bh' : Behavior, bh'.name ∉ [repetition, inverter, force].map Behavior.name → bh ≠ bh' :=
    fun _ hn h => hn (h ▸ List.mem_map_of_mem hbh)
  simp [Tends, hbh, hne sequence (by decide), hne selector (by decide), hne parallel (by decide)]

theorem Behavior.Tends.mem_composites {bh : Behavior} {bs : List UInt8} {k : Nat} (h : bh.Tends bs k) :
    bh ∈ composites := by
  rcases h with rfl | rfl | ⟨rfl, -⟩ | ⟨h, -⟩
  · simp [composites]
  · simp [composites]
  · simp [composites]
  · simp only [List.mem_cons, List.not_mem_nil, or_false] at h
    rcases h with rfl | rfl | rfl <;> simp [composites]

variable {b : Blob} {m : Machine} {i : Nat}

/-- The behavior of node `p` tends its child number `k`. -/
def Machine.Tends (m : Machine) (s : Instance b) (p k : Nat) : Prop :=
  ∃ bh, m.behaviorAt b p = .ok bh ∧ bh.Tends (s.cell p).bytes k

/-- What is known of the data of nodes and of faults. -/
structure Typing (b : Blob) (m : Machine) where
  /-- The data of a node, at all times. -/
  data : Nat → List UInt8 → Prop
  /-- The data of a node when its tick function starts and while it is running. -/
  live : Nat → List UInt8 → Prop
  fault : Fault → Prop
  data_defaults : ∀ i < b.size, data i (b.defaults i)
  live_of_ne : ∀ i bs, m.behaviorAt b i ≠ .ok parallel → live i bs
  unknown : ∀ i < b.size, ∀ e, m.behaviorAt b i = .error e → fault e
  tooDeep : ∀ i < b.size, fault (.error (.depthExceeded i m.config.maxTickDepth))
  untraced : m.config.trace = true → ∀ (bb : Blackboard) (ev : TraceEvent) (e : BoardError),
    (bb.emit ev).2 = .error e → fault (.error (.board e))
  reset : ∀ i < b.size, ∀ bh, m.behaviorAt b i = .ok bh → ∀ w : World b,
    (w.inst.cell i).bytes = b.defaults i → (bh.reset i).Yields w fun r w' =>
      w.inst.OwnData i w'.inst ∧ data i (w'.inst.cell i).bytes ∧
        match r with
        | .ok _ => live i (w'.inst.cell i).bytes
        | .error e => fault e
  relabel : ∀ i < b.size, m.behaviorAt b i = .ok parallel → ∀ bs bs', data i bs → Relabels bs bs' →
    data i bs'
  illegible : ∀ i < b.size, m.behaviorAt b i = .ok parallel → ∀ c : Cell, data i c.bytes →
    ∀ k < (b.childList i).length, ∀ e, c.status i k = .error e → fault (.error e)
  idle : ∀ i < b.size, m.behaviorAt b i = .ok parallel → ∀ bs, data i bs → live i bs →
    (∀ k < (b.childList i).length, bs[k]? ≠ some Status.running.bits) → fault (.error (.noRunningChild i))
  live_of_mem : ∀ i < b.size, m.behaviorAt b i = .ok parallel → ∀ bs, ∀ k < (b.childList i).length,
    bs[k]? = some Status.running.bits → live i bs
  childless : ∀ i < b.size, ∀ bh ∈ [repetition, inverter, force], m.behaviorAt b i = .ok bh →
    b.childList i = [] → fault (.error (.missingChild i))
  unforced : ∀ i < b.size, m.behaviorAt b i = .ok force → ∀ c : Cell, data i c.bytes →
    ∀ e, c.status i 0 = .error e → fault (.error e)
  uncounted : ∀ i < b.size, m.behaviorAt b i = .ok repetition → ∀ c : Cell, data i c.bytes →
    ∀ e, c.read PlainData.repeatData.type i 0 = .error e → fault (.error e)
  count : ∀ i < b.size, m.behaviorAt b i = .ok repetition → ∀ c : Cell, data i c.bytes → ∀ d,
    match c.write i 0 (PlainData.repeatData.encode d) with
    | .ok c' => data i c'.bytes
    | .error e => fault (.error e)
  leaf : ∀ i < b.size, ∀ bh, m.behaviorAt b i = .ok bh → bh ∉ composites → ∀ (cb : Callbacks b)
    (w : World b), data i (w.inst.cell i).bytes → (bh.tick m.registries cb i).Yields w fun r w' =>
      w.inst.OwnData i w'.inst ∧ data i (w'.inst.cell i).bytes ∧ ∀ e, r = .error e → fault e

namespace Typing

variable {T : Typing b m} {s s' : Instance b}

/-- What a node's running children and its own result have to do with each other. -/
structure Supervises (T : Typing b m) (s : Instance b) (p : Nat) : Prop where
  child : ∀ k c, b.IsChild p k c → s.Running c → s.Running p ∧ m.Tends s p k
  self : s.Running p → (∃ bh, m.behaviorAt b p = .ok bh) ∧ T.live p (s.cell p).bytes

theorem tends_of_cells {k : Nat} (hi : i < b.size)
    (h : ∀ j, Within i (b.stop i) j → s'.cell j = s.cell j) (ht : m.Tends s i k) : m.Tends s' i k := by
  obtain ⟨bh, hbh, ht⟩ := ht
  refine ⟨bh, hbh, ?_⟩
  rw [h i ⟨Nat.le_refl _, Blob.lt_stop hi⟩]
  exact ht

theorem running_of_cells {j : Nat} (h : ∀ j, Within i (b.stop i) j → s'.cell j = s.cell j)
    (hj : Within i (b.stop i) j) : s'.Running j ↔ s.Running j := by
  rw [Instance.Running, Instance.Running, h j hj]

theorem within_of_isChild {k c : Nat} (h : b.IsChild i k c) : Within i (b.stop i) c := by
  have := h.lt
  exact ⟨by omega, by omega⟩

def contract (T : Typing b m) : Contract b where
  data := T.data
  fresh := T.live
  ready s i := (∀ k c, b.IsChild i k c → s.Running c → m.Tends s i k) ∧ T.live i (s.cell i).bytes
  holds := T.Supervises
  fault := T.fault
  data_defaults := T.data_defaults
  ready_of_cells hi h hr := by
    refine ⟨fun k c hc hrun => tends_of_cells hi h (hr.1 k c hc ?_), ?_⟩
    · exact (running_of_cells h (within_of_isChild hc)).mp hrun
    · rw [h _ ⟨Nat.le_refl _, Blob.lt_stop hi⟩]
      exact hr.2
  holds_of_cells hi h hs := by
    have hself : Within _ (b.stop _) _ := ⟨Nat.le_refl _, Blob.lt_stop hi⟩
    refine ⟨fun k c hc hrun => ?_, fun hrun => ?_⟩
    · obtain ⟨hp, ht⟩ := hs.child k c hc ((running_of_cells h (within_of_isChild hc)).mp hrun)
      exact ⟨(running_of_cells h hself).mpr hp, tends_of_cells hi h ht⟩
    · rw [h _ hself]
      exact hs.self ((running_of_cells h hself).mp hrun)
  holds_of_quiet hi h :=
    ⟨fun k c hc hrun => absurd hrun (h c (within_of_isChild hc)),
      fun hrun => absurd hrun (h _ ⟨Nat.le_refl _, Blob.lt_stop hi⟩)⟩

instance (T : Typing b m) : T.contract.Forgiving where
  forgives _ _ _ _ _ _ hp hout hin hs := by
    refine ⟨fun k c hc hrun => ?_, fun hrun => ?_⟩
    · have hrun' : _ := hrun
      rw [Instance.Running, hout c fun h => hin c h hrun] at hrun'
      obtain ⟨hpr, bh, hbh, ht⟩ := hs.child k c hc hrun'
      refine ⟨by rw [Instance.Running, hout _ hp]; exact hpr, bh, hbh, ?_⟩
      rw [hout _ hp]
      exact ht
    · rw [Instance.Running, hout _ hp] at hrun
      rw [hout _ hp]
      exact hs.self hrun

/-- A node supervises again once its result is recorded and its running children explain it. -/
theorem supervises_of_record {bh : Behavior} {st : Status}
    (hbh : m.behaviorAt b i = .ok bh) (hself : s'.cell i = { s.cell i with state := some st })
    (hother : ∀ j, j ≠ i → s'.cell j = s.cell j)
    (hchild : ∀ k c, b.IsChild i k c → s.Running c → st = .running ∧ bh.Tends (s.cell i).bytes k)
    (hlive : st = .running → T.live i (s.cell i).bytes) : T.Supervises s' i := by
  refine ⟨fun k c hc hrun => ?_, fun hrun => ⟨⟨bh, hbh⟩, ?_⟩⟩
  · have hci : c ≠ i := by
      have := hc.lt
      omega
    rw [Instance.Running, hother c hci] at hrun
    obtain ⟨rfl, ht⟩ := hchild k c hc hrun
    refine ⟨by rw [Instance.Running, hself], bh, hbh, ?_⟩
    rw [hself]
    exact ht
  · rw [Instance.Running, hself] at hrun
    rw [hself]
    exact hlive (Option.some.inj hrun)

/-! ## Composites -/

theorem marked_of_tends (hi : i < b.size) (hbh : m.behaviorAt b i = .ok parallel)
    (htends : ∀ k c, b.IsChild i k c → s.Running c → m.Tends s i k) : Marked s i 0 (b.childList i) := by
  intro x hx hrun
  obtain ⟨bh, hbh', ht⟩ := htends x.2 x.1 ⟨hi, List.mem_zipIdx_iff_getElem?.mp hx⟩ hrun
  rw [hbh] at hbh'
  cases hbh'
  exact Behavior.tends_parallel.mp ht

/-- After a whole pass, the result bytes are the results. -/
theorem supervises_of_pass {s₁ : Instance b} {rs : List Status} (hi : i < b.size)
    (hbh : m.behaviorAt b i = .ok parallel)
    (hpass : Pass T.contract i (i + 1) (b.stop i) 0 (b.childList i) s s₁)
    (hbytes : window (s₁.cell i).bytes 0 (b.childList i).length = rs.map Status.bits)
    (hself : s'.cell i = { s₁.cell i with state := some (combine rs) })
    (hother : ∀ j, j ≠ i → s'.cell j = s₁.cell j) : T.Supervises s' i := by
  have hread : ∀ k < (b.childList i).length, (s₁.cell i).bytes[k]? = (rs.map Status.bits)[k]? :=
    fun k hk => by rw [← hbytes, getElem?_window, if_pos hk, Nat.zero_add]
  refine supervises_of_record hbh hself hother (fun k c hc hrun => ?_) fun hst => ?_
  · have hbyte := hpass.marked (c, k) (List.mem_zipIdx_iff_getElem?.mpr hc.2) hrun
    have hk := (List.getElem?_eq_some_iff.mp hc.2).1
    rw [hread k hk] at hbyte
    obtain ⟨st, hst, hbits⟩ := List.mem_map.mp (List.mem_of_getElem? hbyte)
    rw [Status.bits_injective hbits] at hst
    exact ⟨combine_eq_running.mpr hst, Behavior.tends_parallel.mpr ((hread k hk).trans hbyte)⟩
  · obtain ⟨k, hk, hst⟩ := List.mem_iff_getElem.mp (combine_eq_running.mp hst)
    have hlen : rs.length ≤ (b.childList i).length := by
      rw [← List.length_map (f := Status.bits), ← hbytes]
      exact List.length_take_le _ _
    refine T.live_of_mem i hi hbh _ k (Nat.lt_of_lt_of_le hk hlen) ?_
    rw [hread k (Nat.lt_of_lt_of_le hk hlen), List.getElem?_map, List.getElem?_eq_getElem hk, hst]
    rfl

section Composites

variable {cb : Callbacks b} (hi : i < b.size)
  (hkept : ∀ c ∈ b.childList i, T.contract.Kept c (cb.tick c))

include hi hkept

theorem tickWhile_served {bh : Behavior} (hbh : m.behaviorAt b i = .ok bh)
    (hs : bh = sequence ∨ bh = selector) {keep : Status} (hkeep : keep ≠ .running) :
    T.contract.Served i (do tickWhile keep cb.tick (← Run.children i)) := by
  intro w hon hdata _
  have hlive : ∀ bs, T.live i bs := fun bs => T.live_of_ne i bs fun h => by
    rw [hbh] at h
    cases h
    rcases hs with hs | hs <;> exact absurd (congrArg Behavior.name hs) (by decide)
  simp only [Run.yields_bind, Run.children_yields hi]
  refine (tickWhile_kept hkeep (Blob.stop_le hi) (Blob.tiles hi) hkept w hon).mono ?_
  rintro r w' ⟨hf, hon', hr⟩
  have hself : w'.inst.cell i = w.inst.cell i := hf.cell i fun h => by have := h.1; omega
  refine ⟨hf.widen (Nat.le_succ i) (Nat.le_refl _), hon', by rw [hself]; exact hdata, ?_⟩
  cases r with
  | error e => exact hr
  | ok st =>
      intro s' h₁ h₂
      refine supervises_of_record hbh h₁ h₂ (fun k c hc hrun => ⟨hr.1 c hc.mem hrun, ?_⟩) fun _ => hlive _
      exact hs.elim Or.inl fun h => Or.inr (Or.inl h)

theorem parallel_served (hbh : m.behaviorAt b i = .ok parallel) (rs : Registries) :
    T.contract.Served i (parallel.tick rs cb i) := by
  intro w hon hdata ⟨htends, hlive⟩
  have hlt := Blob.lt_stop hi
  have hslot : ∀ k ∈ (b.childList i).zipIdx.map (·.2), k < (b.childList i).length := by
    intro k hk
    obtain ⟨x, hx, rfl⟩ := List.mem_map.mp hk
    exact List.snd_lt_of_mem_zipIdx hx
  have hmarked := marked_of_tends hi hbh htends
  simp only [parallel, Run.yields_bind, Run.children_yields hi, anyRunning_yields hi]
  cases hss : (w.inst.cell i).statuses i ((b.childList i).zipIdx.map (·.2)) with
  | error e =>
      obtain ⟨k, hk, he⟩ := Cell.statuses_error hss
      exact ⟨Instance.Frame.refl _ _, hon, hdata, T.illegible i hi hbh _ hdata k (hslot k hk) e he⟩
  | ok ss =>
      have hmap : Checked.ofExcept ((decide <| Status.running ∈ ·) <$> (.ok ss : Except Error _)) =
          .ok (decide (Status.running ∈ ss)) := rfl
      simp only [hmap]
      by_cases hany : Status.running ∈ ss
      · simp only [hany, decide_true, ↓reduceIte, Run.yields_bind, Run.yields_pure]
        refine (tickSlots_kept (Blob.stop_le hi) (Nat.lt_succ_self i) (Blob.tiles hi) hkept w hon hmarked
          fun x hx e he => T.illegible i hi hbh _ hdata _ (List.snd_lt_of_mem_zipIdx hx) e he).mono ?_
        rintro r w' ⟨hpass, hr⟩
        have hf : w.inst.Frame (Within i (b.stop i)) w'.inst := hpass.frame.mono fun j hj => by
          rcases hj with rfl | hj
          · exact ⟨Nat.le_refl _, hlt⟩
          · exact ⟨Nat.le_of_succ_le hj.1, hj.2⟩
        have hdata' := T.relabel i hi hbh _ _ hdata hpass.relabels
        cases r with
        | error e => exact ⟨hf, hpass.on, hdata', hr⟩
        | ok rs =>
            exact ⟨hf, hpass.on, hdata', fun s' h₁ h₂ => supervises_of_pass hi hbh hpass hr h₁ h₂⟩
      · simp only [hany, decide_false, Bool.false_eq_true, ↓reduceIte, Run.yields_bind, Run.yields_fail]
        refine ⟨Instance.Frame.refl _ _, hon, hdata, T.idle i hi hbh _ hdata hlive fun k hk hbyte => hany ?_⟩
        refine (Cell.mem_statuses hss).mpr ⟨k, ?_, hbyte⟩
        exact List.mem_map.mpr ⟨((b.childList i)[k], k), List.mem_zipIdx_iff_getElem?.mpr
          (List.getElem?_eq_getElem hk), rfl⟩

theorem only_kept {c : Nat} {cs : List Nat} (hcs : b.childList i = c :: cs) (w : World b)
    (hon : T.contract.On w.inst (i + 1) (b.stop i))
    (honly : ∀ k d, b.IsChild i k d → w.inst.Running d → k = 0) :
    (cb.tick c).Yields w fun r w' => w.inst.Frame (Within (i + 1) (b.stop i)) w'.inst ∧
      T.contract.On w'.inst (i + 1) (b.stop i) ∧
        match r with
        | .ok st => ∀ k d, b.IsChild i k d → w'.inst.Running d → st = .running ∧ k = 0
        | .error e => T.fault e := by
  have ht := Blob.tiles hi
  rw [hcs] at ht
  obtain ⟨rfl, -, -, ht⟩ := ht
  refine (firstChild_kept hi hkept hcs w hon).mono ?_
  rintro r w' ⟨hfirst, hf, hon', hr⟩
  refine ⟨hf, hon', ?_⟩
  cases r with
  | error e => exact hr
  | ok st =>
      intro k d hd hrun
      have hmem := hd.2
      cases k with
      | zero =>
          rw [hcs] at hmem
          cases hmem
          rw [Instance.Running, hr] at hrun
          exact ⟨Option.some.inj hrun, rfl⟩
      | succ k =>
          -- a later child is as it was before
          rw [hcs, List.getElem?_cons_succ] at hmem
          have hge := (ht.mem (List.mem_of_getElem? hmem)).1
          rw [Instance.Running, hfirst.cell d fun h => Nat.not_lt.mpr hge h.2] at hrun
          exact absurd (honly (k + 1) d hd hrun) (Nat.succ_ne_zero k)

/-- A step after the tick of an only child may change the node's own data and keeps `running`. -/
def Concludes (T : Typing b m) (i : Nat) (post : Status → Run b Status) : Prop :=
  ∀ st (w : World b), T.data i (w.inst.cell i).bytes → (post st).Yields w fun r w' =>
    w.inst.OwnData i w'.inst ∧ T.data i (w'.inst.cell i).bytes ∧
      match r with
      | .ok st' => st = .running → st' = .running
      | .error e => T.fault e

theorem single_ends {bh : Behavior} (hbh : m.behaviorAt b i = .ok bh)
    (hs : bh ∈ [repetition, inverter, force]) {post : Status → Run b Status} (hpost : T.Concludes i post)
    {c : Nat} {cs : List Nat} (hcs : b.childList i = c :: cs) (w : World b)
    (hon : T.contract.On w.inst (i + 1) (b.stop i)) (hdata : T.data i (w.inst.cell i).bytes)
    (hready : T.contract.ready w.inst i) : (cb.tick c >>= post).Yields w (T.contract.Ends i w) := by
  have hlt := Blob.lt_stop hi
  have honly : ∀ k d, b.IsChild i k d → w.inst.Running d → k = 0 := by
    intro k d hd hrun
    obtain ⟨bh', hbh', ht⟩ := hready.1 k d hd hrun
    rw [hbh] at hbh'
    cases hbh'
    exact (Behavior.tends_single hs).mp ht
  have hlive : ∀ bs, T.live i bs := fun bs => T.live_of_ne i bs fun h => by
    rw [hbh] at h
    cases h
    exact absurd (List.mem_map_of_mem (f := Behavior.name) hs) (by decide)
  rw [Run.yields_bind]
  refine (only_kept hi hkept hcs w hon honly).mono ?_
  rintro r w₁ ⟨hf₁, hon₁, hr⟩
  have hself : w₁.inst.cell i = w.inst.cell i := hf₁.cell i fun h => by have := h.1; omega
  have hf₁' : w.inst.Frame (Within i (b.stop i)) w₁.inst := hf₁.widen (Nat.le_succ i) (Nat.le_refl _)
  have hdata₁ : T.data i (w₁.inst.cell i).bytes := by rw [hself]; exact hdata
  cases r with
  | error e => exact ⟨hf₁', hon₁, hdata₁, hr⟩
  | ok st =>
      refine (hpost st w₁ hdata₁).mono ?_
      rintro r w₂ ⟨hown, hdata₂, hr₂⟩
      refine ⟨hf₁'.trans (hown.toFrame.subtree hi),
        hon₁.after (Blob.stop_le hi) hown.toFrame fun j hj => by omega, hdata₂, ?_⟩
      cases r with
      | error e => exact hr₂
      | ok st' =>
          intro s' h₁ h₂
          refine supervises_of_record hbh h₁ h₂ (fun k d hd hrun => ?_) fun _ => hlive _
          have hdi : d ≠ i := by
            have := hd.lt
            omega
          rw [Instance.Running, hown.cell d hdi] at hrun
          obtain ⟨hst, hk⟩ := hr k d hd hrun
          exact ⟨hr₂ hst, (Behavior.tends_single hs).mpr hk⟩

theorem inverter_served (hbh : m.behaviorAt b i = .ok inverter) (rs : Registries) :
    T.contract.Served i (inverter.tick rs cb i) := by
  intro w hon hdata hready
  simp only [inverter, Run.yields_bind, onlyChild_yields hi]
  cases hcs : b.childList i with
  | nil => exact ⟨Instance.Frame.refl _ _, hon, hdata, T.childless i hi _ (by simp) hbh hcs⟩
  | cons c cs =>
      have hpost : T.Concludes i fun s => pure s.invert := fun st w hd =>
        ⟨Instance.OwnData.refl i _, hd, fun h => by rw [h]; rfl⟩
      have h := single_ends hi hkept hbh (by simp) hpost hcs w hon hdata hready
      rw [Run.yields_bind] at h
      exact h

theorem force_served (hbh : m.behaviorAt b i = .ok force) (rs : Registries) :
    T.contract.Served i (force.tick rs cb i) := by
  intro w hon hdata hready
  simp only [force, Run.yields_bind, onlyChild_yields hi]
  cases hcs : b.childList i with
  | nil => exact ⟨Instance.Frame.refl _ _, hon, hdata, T.childless i hi _ (by simp) hbh hcs⟩
  | cons c cs =>
      simp only [Run.readStatus_yields hi]
      cases hforced : (w.inst.cell i).status i 0 with
      | error e => exact ⟨Instance.Frame.refl _ _, hon, hdata, T.unforced i hi hbh _ hdata e hforced⟩
      | ok forced =>
          have hpost : T.Concludes i fun s => pure (if s.isRunning then s else forced) := fun st w hd =>
            ⟨Instance.OwnData.refl i _, hd, fun h => by rw [h]; rfl⟩
          have h := single_ends hi hkept hbh (by simp) hpost hcs w hon hdata hready
          rw [Run.yields_bind] at h
          exact h

theorem repetition_served (hbh : m.behaviorAt b i = .ok repetition) (rs : Registries) :
    T.contract.Served i (repetition.tick rs cb i) := by
  intro w hon hdata hready
  have hrunning : ∀ d : RepeatData, (d.step .running).2 = .running := fun d => by
    unfold RepeatData.step
    split <;> rfl
  have hpost : T.Concludes i (countResult i) := by
    intro st w hd
    simp only [countResult, Run.yields_bind, Run.readHead_yields hi]
    cases hread : (w.inst.cell i).read PlainData.repeatData.type i 0 with
    | error e => exact ⟨Instance.OwnData.refl i _, hd, T.uncounted i hi hbh _ hd e hread⟩
    | ok bs =>
        have hcount := T.count i hi hbh _ hd ((PlainData.repeatData.decode bs).step st).1
        refine (Run.writeHead_yields hi .repeatData ⟨2, rfl⟩ _).mono fun r w' hput => ?_
        unfold Run.Puts at hput
        cases hc : (w.inst.cell i).write i 0 (PlainData.repeatData.encode
            ((PlainData.repeatData.decode bs).step st).1) with
        | ok c' =>
            rw [hc] at hput hcount
            obtain ⟨rfl, hset, -⟩ := hput
            rw [Run.yields_pure]
            refine ⟨hset.ownData (Cell.write_state hc), by rw [hset.self]; exact hcount, fun h => ?_⟩
            rw [h]
            exact hrunning _
        | error e =>
            rw [hc] at hput hcount
            obtain ⟨rfl, rfl⟩ := hput
            exact ⟨Instance.OwnData.refl i _, hd, hcount⟩
  simp only [repetition_tick, Run.yields_bind, onlyChild_yields hi]
  cases hcs : b.childList i with
  | nil => exact ⟨Instance.Frame.refl _ _, hon, hdata, T.childless i hi _ (by simp) hbh hcs⟩
  | cons c cs =>
      have h := single_ends hi hkept hbh (by simp) hpost hcs w hon hdata hready
      rw [Run.yields_bind] at h
      exact h

end Composites

theorem leaf_served (hi : i < b.size) {bh : Behavior} (hbh : m.behaviorAt b i = .ok bh)
    (hleaf : bh ∉ composites) (cb : Callbacks b) :
    T.contract.Served i (bh.tick m.registries cb i) := by
  intro w hon hdata hready
  have hnone : ∀ k c, b.IsChild i k c → ¬ w.inst.Running c := by
    intro k c hc hrun
    obtain ⟨bh', hbh', ht⟩ := hready.1 k c hc hrun
    rw [hbh] at hbh'
    cases hbh'
    exact hleaf ht.mem_composites
  have hlive : ∀ bs, T.live i bs := fun bs => T.live_of_ne i bs fun h => by
    rw [hbh] at h
    cases h
    exact hleaf (by simp [composites])
  refine (T.leaf i hi bh hbh hleaf cb w hdata).mono ?_
  rintro r w' ⟨hown, hdata', hr⟩
  refine ⟨hown.toFrame.subtree hi,
    hon.after (Blob.stop_le hi) hown.toFrame fun j hj => by omega, hdata', ?_⟩
  cases r with
  | error e => exact hr e rfl
  | ok st =>
      intro s' h₁ h₂
      refine supervises_of_record hbh h₁ h₂ (fun k c hc hrun => ?_) fun _ => hlive _
      have hci : c ≠ i := by
        have := hc.lt
        omega
      rw [Instance.Running, hown.cell c hci] at hrun
      exact absurd hrun (hnone k c hc)

theorem upheld (T : Typing b m) : T.contract.Upheld m where
  unknown := T.unknown
  tooDeep := T.tooDeep
  untraced := T.untraced
  reset := T.reset
  start i hi s s' hon hrun hown := by
    have hsup := (hon i ⟨Nat.le_refl _, Blob.lt_stop hi⟩).2
    have hnone : ∀ k c, b.IsChild i k c → ¬ s'.Running c := by
      intro k c hc hrun'
      have hci : c ≠ i := by
        have := hc.lt
        omega
      rw [Instance.Running, hown.cell c hci] at hrun'
      exact hrun (hsup.child k c hc hrun').1
    refine ⟨⟨fun k c hc hrun' => absurd hrun' (hnone k c hc), fun hrun' => ?_⟩,
      fun hfresh => ⟨fun k c hc hrun' => absurd hrun' (hnone k c hc), hfresh⟩⟩
    rw [Instance.Running, hown.state] at hrun'
    exact absurd hrun' hrun
  resume i hi s hon hrun := by
    have hsup := (hon i ⟨Nat.le_refl _, Blob.lt_stop hi⟩).2
    exact ⟨fun k c hc hrun' => (hsup.child k c hc hrun').2, (hsup.self hrun).2⟩
  tick i hi bh hbh cb hkept := by
    by_cases hc : bh ∈ composites
    · simp only [composites, List.mem_cons, List.not_mem_nil, or_false] at hc
      rcases hc with rfl | rfl | rfl | rfl | rfl | rfl
      · exact tickWhile_served hi hkept hbh (Or.inl rfl) (by decide)
      · exact tickWhile_served hi hkept hbh (Or.inr rfl) (by decide)
      · exact parallel_served hi hkept hbh _
      · exact repetition_served hi hkept hbh _
      · exact inverter_served hi hkept hbh _
      · exact force_served hi hkept hbh _
    · exact leaf_served hi hbh hc cb

end Typing

end BehaviorTree
