import BehaviorTree.Proofs.Structure.Independence

/-!
# A repetition counts what its child completes

The child of a repetition goes through the ticks of a tree of its own, whether activations of the repetition
end or not. The repetition keeps the number of completed results since its activation began.
-/

namespace BehaviorTree

open Library LiveTree

/-! ## Counts -/

/-- For a node with the results `s`, tick `n` is in the activation that began with tick `a`. -/
structure InActivation (s : Nat → Status) (a n : Nat) : Prop where
  le : a ≤ n
  /-- The tick before it, if any, ended an activation. -/
  begins : ∀ j, j + 1 = a → s j ≠ .running
  goesOn : ∀ j, a ≤ j → j < n → s j = .running

namespace InActivation

variable {s : Nat → Status} {a n : Nat}

theorem first : InActivation s 0 0 := ⟨Nat.le_refl 0, nofun, nofun⟩

theorem next (h : InActivation s a n) (hrun : s n = .running) : InActivation s a (n + 1) := by
  refine ⟨Nat.le_succ_of_le h.le, h.begins, fun j ha hj => ?_⟩
  rcases Nat.lt_succ_iff_lt_or_eq.mp hj with hlt | rfl
  · exact h.goesOn j ha hlt
  · exact hrun

theorem again (hdone : s n ≠ .running) : InActivation s (n + 1) (n + 1) :=
  ⟨Nat.le_refl _, fun _ hj => Nat.succ.inj hj ▸ hdone, fun _ ha hj => absurd hj (Nat.not_lt.mpr ha)⟩

end InActivation

/-- The number of completed results in `r` from tick `a` on and before tick `n`. -/
def completions (r : Nat → Status) (a n : Nat) : Nat := (List.range' a (n - a)).countP fun j => (r j).isCompleted

theorem Status.isCompleted_iff {q : Status} : q.isCompleted = true ↔ q ≠ .running := by
  cases q <;> decide

@[simp] theorem completions_self (r : Nat → Status) (n : Nat) : completions r n n = 0 := by
  rw [completions, Nat.sub_self]
  rfl

theorem completions_succ (r : Nat → Status) {a n : Nat} (h : a ≤ n) :
    completions r a (n + 1) = completions r a n + if (r n).isCompleted then 1 else 0 := by
  rw [completions, Nat.succ_sub h, List.range'_1_concat, List.countP_append, Nat.add_sub_cancel' h, completions,
    List.countP_singleton]

namespace RepeatData

/-- The data with `k` completions so far. -/
def counted (d : RepeatData) (k : Nat) : RepeatData := { d with count := .ofNat k }

/-- The data on entry to tick `n` if `r` are the results of the child. Each activation starts with `d`. -/
def entering (d : RepeatData) (r : Nat → Status) : Nat → RepeatData
  | 0 => d
  | n + 1 => let x := (d.entering r n).step (r n); if x.2 = .running then x.1 else d

variable {d : RepeatData} {k k' : Nat} {q : Status} {r s : Nat → Status} {n : Nat}

theorem counted_start (hd : d.count = 0) (r : Nat → Status) (n : Nat) : d = d.counted (completions r n n) ∧
    (0 < d.times → (completions r n n : Int) < d.times.toInt) := by
  rw [completions_self, counted, show Int32.ofNat 0 = d.count from hd.symm]
  exact ⟨rfl, Int32.lt_iff_toInt_lt.mp⟩

/-- Up to the number of times, counting does not overflow. -/
theorem toInt_counted (hk : (k : Int) ≤ d.times.toInt) : (d.counted k).count.toInt = k :=
  Int32.toInt_ofNat_of_lt (by have := d.times.toInt_lt; omega)

theorem step_of_isIn (hbreak : q.isIn d.breakOn) : (d.counted k).step q = (d.counted k, q) := if_pos hbreak

theorem step_running : d.step .running = (d, .running) := by
  unfold step
  split
  · rfl
  · rfl

section

variable (hk : 0 < d.times → (k : Int) < d.times.toInt)

include hk

theorem enough_iff : 0 < d.times ∧ d.times ≤ (d.counted (k + 1)).count ↔
    0 < d.times ∧ ((k + 1 : Nat) : Int) = d.times.toInt :=
  and_congr_right fun hpos => by
    have hlt := hk hpos
    rw [Int32.le_iff_toInt_le, toInt_counted (by omega)]
    omega

theorem step_completed (hbreak : ¬ q.isIn d.breakOn) (hq : q ≠ .running) : (d.counted k).step q =
    (d.counted (k + 1), if 0 < d.times ∧ ((k + 1 : Nat) : Int) = d.times.toInt then .success else .running) := by
  have hcount : { d.counted k with count := (d.counted k).count + 1 } = d.counted (k + 1) := by
    rw [counted, counted, Int32.ofNat_add]
    rfl
  have hrun : ¬ q.isRunning := by rw [Status.isRunning_iff]; exact hq
  unfold step
  rw [if_neg (show ¬ q.isIn (d.counted k).breakOn from hbreak), if_neg hrun, hcount]
  exact congrArg (Prod.mk _) (if_congr (enough_iff hk) rfl rfl)

variable (hk' : k' = k + if q.isCompleted then 1 else 0)

include hk'

/-- What a repetition returns after `k` completions that have not been enough. -/
theorem result_counted : ((d.counted k).step q).2 =
    if q.isIn d.breakOn then q
    else if q.isCompleted ∧ 0 < d.times ∧ (k' : Int) = d.times.toInt then .success else .running := by
  by_cases hbreak : q.isIn d.breakOn
  · rw [if_pos hbreak, step_of_isIn hbreak]
  rw [if_neg hbreak]
  by_cases hq : q = .running
  · subst hq
    rw [step_running, if_neg fun h => Status.isCompleted_iff.mp h.1 rfl]
  · have hdone := Status.isCompleted_iff.mpr hq
    rw [if_pos hdone] at hk'
    rw [step_completed hk hbreak hq, hk']
    exact if_congr (by rw [hdone]; simp) rfl rfl

/-- While the repetition goes on, there have not been enough. -/
theorem counted_of_running (h : ((d.counted k).step q).2 = .running) :
    ((d.counted k).step q).1 = d.counted k' ∧ (0 < d.times → (k' : Int) < d.times.toInt) := by
  by_cases hq : q = .running
  · subst hq
    cases hk'
    rw [step_running]
    exact ⟨rfl, hk⟩
  rw [if_pos (Status.isCompleted_iff.mpr hq)] at hk'
  subst hk'
  by_cases hbreak : q.isIn d.breakOn
  · rw [step_of_isIn hbreak] at h
    exact absurd h hq
  rw [step_completed hk hbreak hq] at h ⊢
  refine ⟨rfl, fun hpos => ?_⟩
  have hlt := hk hpos
  have hne : ((k + 1 : Nat) : Int) ≠ d.times.toInt := fun he => by
    rw [if_pos ⟨hpos, he⟩] at h
    cases h
  omega

end

/-- On entry to a tick, the data counts the completions in its activation so far. -/
theorem entering_eq (hd : d.count = 0) : ∀ {n : Nat}, (∀ j < n, s j = ((d.entering r j).step (r j)).2) →
    ∃ a, InActivation s a n ∧ d.entering r n = d.counted (completions r a n) ∧
      (0 < d.times → (completions r a n : Int) < d.times.toInt)
  | 0, _ => ⟨0, .first, counted_start hd r 0⟩
  | n + 1, hs => by
      obtain ⟨a, hact, hdata, hlt⟩ := entering_eq hd fun j hj => hs j (Nat.lt_succ_of_lt hj)
      have hn := hs n (Nat.lt_succ_self n)
      rw [hdata] at hn
      rw [entering, hdata]
      by_cases hrun : s n = .running
      · refine ⟨a, hact.next hrun, ?_⟩
        rw [hn] at hrun
        simp only [if_pos hrun]
        exact counted_of_running hlt (completions_succ r hact.le) hrun
      · refine ⟨n + 1, .again hrun, ?_⟩
        rw [hn] at hrun
        simp only [if_neg hrun]
        exact counted_start hd r (n + 1)

end RepeatData

/-! ## Ticks of a repetition -/

namespace Cell

variable {c : Cell} {i : Nat}

theorem count_encode {d : RepeatData} (h : c.bytes = (PlainData.repeatData.encode d).1) (q : Status) :
    c.count i q = .ok ((d.step q).2, ⟨c.state, (PlainData.repeatData.encode (d.step q).1).1⟩) := by
  have hlen : c.bytes.length = PlainData.repeatData.type.size := by rw [h, (PlainData.repeatData.encode d).2]
  rw [count, read_all (by decide) h]
  change (c.write i 0 (PlainData.repeatData.encode
    ((PlainData.repeatData.decode (PlainData.repeatData.encode d)).step q).1) >>= _) = _
  rw [PlainData.decode_encode, write_all (by decide) hlen]
  rfl

end Cell

namespace LiveTree

variable {rs : Registries} {limit : Nat} {d₀ d : RepeatData} {t u : LiveTree}

/-- A repetition that returns the second of `x` and keeps the first. -/
def repeated (d₀ : RepeatData) (x : RepeatData × Status) (v : LiveTree) : LiveTree :=
  node repetitionId (PlainData.repeatData.encode d₀).1 ⟨some x.2, (PlainData.repeatData.encode x.1).1⟩ [v]

/-- A repetition on entry to a tick with the data `d`, its child compared to the same tree on its own. -/
inductive Repeating (rs : Registries) (d₀ d : RepeatData) (u : LiveTree) : LiveTree → Prop
  | node {c : Cell} {v : LiveTree} :
      (NodeKind.repetition.activate (PlainData.repeatData.encode d₀).1 c).bytes = (PlainData.repeatData.encode d).1 →
      Alike rs v u → Repeating rs d₀ d u (.node repetitionId (PlainData.repeatData.encode d₀).1 c [v])

theorem repeating_fresh (times : Int32) (breakOn : UInt8) (t : Blueprint) :
    let d : RepeatData := ⟨times, 0, breakOn, .replicate 3 0⟩
    Repeating rs d d (fresh t) (fresh (.repetition times breakOn t)) := by
  intro d
  rw [Blueprint.repetition, fresh, freshAll, freshAll]
  exact .node rfl (Alike.of_quiet _ (blank_fresh t).quiet (blank_fresh t).quiet rfl)

namespace Repeating

theorem next {x : RepeatData × Status} {v : LiveTree} (h : Alike rs v u) (ht : t = repeated d₀ x v) :
    Repeating rs d₀ (if x.2 = .running then x.1 else d₀) u t := by
  subst ht
  refine .node ?_ h
  by_cases hrun : x.2 = .running
  · rw [if_pos hrun, NodeKind.activate, if_pos (congrArg some hrun)]
  · rw [if_neg hrun, NodeKind.activate, if_neg fun h => hrun (Option.some.inj h)]
    rfl

/-- A tick of the repetition ticks its child once, and makes of its result what the data says. -/
theorem tick (h : Repeating rs d₀ d u t) (hself : u.shape.SelfContained rs) (hroom : 1 + u.shape.height ≤ limit)
    (bb : Blackboard) : let o := t.tick rs limit 0 .top bb; let p := u.tick rs limit 0 .top bb
    (∃ q v, p.answer = .ok q ∧ o.answer = .ok (d.step q).2 ∧ o.part = repeated d₀ (d.step q) v ∧
        Alike rs v p.part ∧ v.cell.state = some q) ∨
      (∃ e, o.answer = .error e) ∧ ∃ e, p.answer = .error e := by
  intro o p
  obtain @⟨c, v, hbytes, halike⟩ := h
  have hkind : NodeKind.ofType? repetitionId = some .repetition := rfl
  simp only [o, LiveTree.tick, hkind, tickFirst]
  rw [if_neg (by omega)]
  generalize NodeKind.repetition.activate (PlainData.repeatData.encode d₀).1 c = a at hbytes ⊢
  set cx := (Context.top.focus [a] []).focus [] (cellsAll [])
  rcases (tick_apart halike hself hroom cx bb).2 with ⟨q, hq, hp, hv⟩ | ⟨⟨e, he⟩, hp⟩
  · refine .inl ⟨q, _, hp, ?_, ?_, hv, state_of_tick hq⟩
    · simp only [Turn.under, hq, Cell.count_encode hbytes]
      rfl
    · simp only [Turn.under, hq, Cell.count_encode hbytes]
      rfl
  · refine .inr ⟨⟨e, ?_⟩, hp⟩
    simp only [Turn.under, he]
    rfl

variable {bbs : Nat → Blackboard} {r s : Nat → Status} {n : Nat}

theorem step (h : Repeating rs d₀ d (u.ticked rs limit bbs n) (t.ticked rs limit bbs n))
    (hself : u.shape.SelfContained rs) (hroom : 1 + u.shape.height ≤ limit) :
    (∃ q v, u.resultAt rs limit bbs n = .ok q ∧ t.resultAt rs limit bbs n = .ok (d.step q).2 ∧
        t.ticked rs limit bbs (n + 1) = repeated d₀ (d.step q) v ∧ Alike rs v (u.ticked rs limit bbs (n + 1)) ∧
          v.cell.state = some q) ∨
      (∃ e, t.resultAt rs limit bbs n = .error e) ∧ ∃ e, u.resultAt rs limit bbs n = .error e := by
  have hshape : (u.ticked rs limit bbs n).shape = u.shape := shape_ticked u n
  have hself : (u.ticked rs limit bbs n).shape.SelfContained rs := by rw [hshape]; exact hself
  have hroom : 1 + (u.ticked rs limit bbs n).shape.height ≤ limit := by rw [hshape]; exact hroom
  exact h.tick hself hroom (bbs n)

section

variable (h : Repeating rs d₀ d₀ u t) (hself : u.shape.SelfContained rs) (hroom : 1 + u.shape.height ≤ limit)

include h hself hroom

/-- The child keeps in step with the tree of its own, over all activations. -/
theorem ticked : ∀ n, (∀ j < n, u.resultAt rs limit bbs j = .ok (r j)) →
    Repeating rs d₀ (d₀.entering r n) (u.ticked rs limit bbs n) (t.ticked rs limit bbs n)
  | 0, _ => h
  | n + 1, hr => by
      have hn := ticked n fun j hj => hr j (Nat.lt_succ_of_lt hj)
      have hq := hr n (Nat.lt_succ_self n)
      rcases hn.step hself hroom with ⟨q, v, hu, -, hpart, hv, -⟩ | ⟨-, e, he⟩
      · cases hq.symm.trans hu
        exact next hv hpart
      · cases hq.symm.trans he

/-- While the repetition does not fail, neither does the tree of its child. -/
theorem exists_results (ht : ∀ j < n, ∃ s, t.resultAt rs limit bbs j = .ok s) :
    ∃ r : Nat → Status, ∀ j < n, u.resultAt rs limit bbs j = .ok (r j) := by
  induction n with
  | zero => exact ⟨fun _ => .running, nofun⟩
  | succ n ih =>
      obtain ⟨r, hr⟩ := ih fun j hj => ht j (Nat.lt_succ_of_lt hj)
      obtain ⟨s, hs⟩ := ht n (Nat.lt_succ_self n)
      rcases (ticked h hself hroom n hr).step hself hroom with ⟨q, -, hq, -⟩ | ⟨⟨e, he⟩, -⟩
      · refine ⟨Function.update r n q, fun j hj => ?_⟩
        rcases Nat.lt_succ_iff_lt_or_eq.mp hj with hlt | rfl
        · rw [Function.update_of_ne (Nat.ne_of_lt hlt)]
          exact hr j hlt
        · rw [Function.update_self]
          exact hq
      · cases hs.symm.trans he

/-- What the ticks of a repetition come to, from those of the tree of its child. -/
theorem exists_run (ht : ∀ j < n, t.resultAt rs limit bbs j = .ok (s j)) :
    ∃ r : Nat → Status, (∀ j < n, u.resultAt rs limit bbs j = .ok (r j)) ∧
      ∀ j < n, s j = ((d₀.entering r j).step (r j)).2 ∧
        ∃ v, t.ticked rs limit bbs (j + 1) = repeated d₀ ((d₀.entering r j).step (r j)) v ∧
          v.cell.state = some (r j) := by
  obtain ⟨r, hr⟩ := exists_results h hself hroom fun j hj => ⟨s j, ht j hj⟩
  refine ⟨r, hr, fun j hj => ?_⟩
  have hat := ticked h hself hroom j fun i hi => hr i (Nat.lt_trans hi hj)
  rcases hat.step hself hroom with ⟨q, v, hq, hres, hpart, -, hv⟩ | ⟨⟨e, he⟩, -⟩
  · cases (hr j hj).symm.trans hq
    exact ⟨Except.ok.inj ((ht j hj).symm.trans hres), v, hpart, hv⟩
  · cases (ht j hj).symm.trans he

end

end Repeating

end LiveTree

/-! ## On the machine -/

variable {b : Blob} {m : Machine}

/-- Tick `n` of a repetition, with the results `s`, in the activation that began with tick `a`. The results of its
child as a tree of its own are `r`. -/
structure Tree.Counts (t : Tree b) (m : Machine) (bbs : Nat → Blackboard) (times : Int32) (breakOn : UInt8)
    (r s : Nat → Status) (a n : Nat) : Prop where
  activation : InActivation s a n
  /-- The child is ticked to the result of its own tree. -/
  child : (t.ticked m bbs (n + 1)).inst.state 1 = .ok (some (r n))
  result : s n = if (r n).isIn breakOn then r n
    else if (r n).isCompleted ∧ 0 < times ∧ (completions r a (n + 1) : Int) = times.toInt then .success
    else .running
  /-- If the repetition goes on, it has counted the completions so far, which are fewer than those it waits for. -/
  count : 0 < times → s n = .running → ∃ d : RepeatData,
    (t.ticked m bbs (n + 1)).inst.readAt PlainData.repeatData.type 0 0 = .ok (PlainData.repeatData.encode d) ∧
      d.times = times ∧ d.breakOn = breakOn ∧ d.count.toInt = completions r a (n + 1) ∧
      0 ≤ d.count ∧ d.count < d.times

theorem counts_of_mirrors {t : Tree b} {bbs : Nat → Blackboard} {d : RepeatData} (hd : d.count = 0)
    {r s : Nat → Status} {n : Nat} {v : LiveTree} (hs : ∀ j ≤ n, s j = ((d.entering r j).step (r j)).2)
    (hmirror : Mirrors (t.ticked m bbs (n + 1)) (repeated d ((d.entering r n).step (r n)) v))
    (hv : v.cell.state = some (r n)) : ∃ a, t.Counts m bbs d.times d.breakOn r s a n := by
  obtain ⟨a, hact, hdata, hlt⟩ := RepeatData.entering_eq hd fun j hj => hs j (Nat.le_of_lt hj)
  have hn := hs n (Nat.le_refl n)
  have hsucc := completions_succ r hact.le
  rw [hdata] at hn hmirror
  refine ⟨a, hact, ?_, hn.trans (RepeatData.result_counted hlt hsucc), fun hpos hrun => ?_⟩
  · obtain ⟨cs, hcs⟩ := v.cells_eq_cons
    obtain ⟨hi, hcell⟩ := hmirror.cell_eq (i := 1) (c := v.cell) (by rw [repeated, cells, cellsAll, hcs]; rfl)
    rw [Instance.state_eq _ hi, hcell, hv]
  · obtain ⟨hcounted, hless⟩ := RepeatData.counted_of_running hlt hsucc (hn.symm.trans hrun)
    have hless := hless hpos
    have hcount := RepeatData.toInt_counted (Int.le_of_lt hless)
    refine ⟨d.counted (completions r a (n + 1)), ?_, rfl, rfl, hcount, ?_, ?_⟩
    · rw [Instance.readAt_eq _ b.size_pos, hmirror.root_eq, ← hcounted, repeated, LiveTree.cell,
        Cell.read_all (by decide) rfl]
      rfl
    · rw [Int32.le_iff_toInt_le, hcount]
      exact Int.natCast_nonneg _
    · rw [Int32.lt_iff_toInt_lt, hcount]
      exact hless

/-- A repetition counts what the tree of its child completes: while its ticks do not fail, neither do those of this
tree, and each of them returns a result in the set, or `success` with the last completion since the activation
began that it waits for, or `running`. -/
theorem repetition_counts (hlib : ∀ x ∈ Library.behaviors, m.behavior? x.1 = some x.2) {times : Int32}
    {breakOn : UInt8} {c : Blueprint} (hc : c.SelfContained m.registries)
    (hdepth : (Blueprint.repetition times breakOn c).height ≤ m.config.maxTickDepth)
    (hbuild : (Blueprint.repetition times breakOn c).build = .ok b) :
    ∃ kid : Blob, c.build = .ok kid ∧ ∀ (bbs : Nat → Blackboard) (s : Nat → Status) (n : Nat),
      (∀ j < n, (Tree.new b).resultAt m bbs j = .ok (s j)) →
        ∃ r : Nat → Status, (∀ j < n, (Tree.new kid).resultAt m bbs j = .ok (r j)) ∧
          ∀ j < n, ∃ a, (Tree.new b).Counts m bbs times breakOn r s a j := by
  have hself : (Blueprint.repetition times breakOn c).SelfContained m.registries :=
    .node (by decide) (.of_ne (by decide) _ _) (List.forall_mem_singleton.mpr hc)
  have hb : Kin b (fresh (.repetition times breakOn c)) := .of_build hself hbuild
  obtain ⟨kids, hkids⟩ := exists_kids (Blueprint.build_draws hbuild).2.2.2.2
  obtain ⟨kid, -, hkid, -, rfl⟩ := List.forall₂_cons_left_iff.mp hkids
  have hkin : Kin kid (fresh c) := .of_build hc hkid
  refine ⟨kid, hkid, fun bbs s n hs => ?_⟩
  have hrec : ∀ j < n, m.Records (bbs j) := fun j hj =>
    (Tree.settled_new m b).records_of_resultAt hlib hb.ofLibrary (hs j hj)
  have hroom : 1 + (fresh c).shape.height ≤ m.config.maxTickDepth := by
    rw [Blueprint.repetition, Blueprint.height, Blueprint.heightAll] at hdepth
    rw [shape_fresh]
    omega
  have hchild : (fresh c).shape.SelfContained m.registries := by
    rw [shape_fresh]
    exact hc
  obtain ⟨r, hr, hrun⟩ := (repeating_fresh times breakOn c).exists_run hchild hroom fun j hj =>
    (hb.resultAt_iff hlib (fun i hi => hrec i (Nat.lt_of_le_of_lt hi hj)) _).mp (hs j hj)
  refine ⟨r, fun j hj => ?_, fun j hj => ?_⟩
  · exact (hkin.resultAt_iff hlib (fun i hi => hrec i (Nat.lt_of_le_of_lt hi hj)) _).mpr (hr j hj)
  · obtain ⟨-, v, hpart, hv⟩ := hrun j hj
    have hmirror := ticked_mirrors hlib hb.ofLibrary (Tree.settled_new m b) hb.mirrors (j + 1) fun i hi =>
      hrec i (Nat.lt_of_lt_of_le hi hj)
    rw [hpart] at hmirror
    exact counts_of_mirrors rfl (fun i hi => (hrun i (Nat.lt_of_le_of_lt hi hj)).1) hmirror hv

/-- Two successes, over and over. -/
def Blob.twice : Blob :=
  ⟨⟨#[repetitionId, fixedId], #[2, 2], #[0, 16], #[12, 1], #[2, 0, 1]⟩, by decide⟩

theorem repetition_counts_twice :
    let s := fun j => if j = 1 then Status.success else .running
    let bbs := fun _ => Blackboard.empty
    (Blueprint.repetition 2 0 (.fixed .success)).build = .ok .twice ∧
      (∀ j < 3, (Tree.new Blob.twice).resultAt .ofLibrary bbs j = .ok (s j)) ∧
        ∃ kid : Blob, (Blueprint.fixed .success).build = .ok kid ∧ ∃ r : Nat → Status,
          (∀ j < 3, (Tree.new kid).resultAt .ofLibrary bbs j = .ok (r j)) ∧
            ∀ j < 3, ∃ a, (Tree.new Blob.twice).Counts .ofLibrary bbs 2 0 r s a j := by
  intro s bbs
  have hbuild : (Blueprint.repetition 2 0 (.fixed .success)).build = .ok .twice := by decide +kernel
  have hfixed : (Blueprint.fixed .success).SelfContained Machine.ofLibrary.registries :=
    .node (by decide) (.of_ne (by decide) _ _) fun _ h => absurd h List.not_mem_nil
  have hs : ∀ j < 3, (Tree.new Blob.twice).resultAt .ofLibrary bbs j = .ok (s j) := by decide +kernel
  obtain ⟨kid, hkid, h⟩ := repetition_counts Machine.HasLibrary.ofLibrary.behaviors hfixed (by decide +kernel) hbuild
  exact ⟨hbuild, hs, kid, hkid, h bbs s 3 hs⟩

end BehaviorTree
