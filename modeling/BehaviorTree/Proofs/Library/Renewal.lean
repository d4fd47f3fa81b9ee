import BehaviorTree.Proofs.Library.Access
import BehaviorTree.Proofs.Library.Coupled
import BehaviorTree.Proofs.Library.Soundness

/-!
# A tree that was reset is a new tree

A reset copies the default data over the memory of a subtree in one piece and makes its nodes inactive. On
default data no reset function of the library changes anything, so nothing but the tick counter is left of
the time before.
-/

namespace BehaviorTree

open Library Run

variable {b : Blob} {m : Machine} {i : Nat}

/-- In the default data of a parallel all its children are running. -/
def Blob.ParallelsRun (b : Blob) : Prop :=
  ∀ i, b.typeOf i = .ok parallelId → ∀ byte ∈ b.defaults i, byte = Status.running.bits

instance (b : Blob) : Decidable b.ParallelsRun :=
  decidable_of_iff (∀ i < b.size, b.typeOf i = .ok parallelId → (b.defaults i).all (· == Status.running.bits))
    (by
      simp only [Blob.ParallelsRun, List.all_eq_true, beq_iff_eq]
      exact ⟨fun h i htype => h i (Array.getElem?_eq_some_iff.mp (Blob.typeOf_eq_ok_iff.mp htype)).1 htype,
        fun h i _ htype => h i htype⟩)

theorem Instance.fill_self {s : Instance b} (hi : i < b.size) {byte : UInt8}
    (h : ∀ x ∈ (s.cell i).bytes, x = byte) : s.fill i byte = .ok s := by
  have hall : (s.cell i).bytes = List.replicate (b.extent i) byte :=
    List.eq_replicate_iff.mpr ⟨s.length_bytes_cell hi, h⟩
  obtain ⟨buf, hbuf, -⟩ := s.overwrite_sets hi (o := 0) (List.replicate (b.extent i) byte) (by simp)
  rw [Nat.add_zero] at hbuf
  have hsame : buf = s.data := by
    refine Vector.ext fun k hk => ?_
    rw [← Option.some_inj, ← Vector.getElem?_eq_getElem, ← Vector.getElem?_eq_getElem,
      Buffer.getElem?_overwrite hbuf, List.length_replicate]
    split
    · rename_i hin
      rw [← hall, cell, getElem?_window, if_pos (by omega), Vector.getElem?_toList]
      congr 1
      omega
    · rfl
  rw [fill, Blob.sizeOf_eq hi, Checked.ok_bind, putBytes, Blob.offsetOf_eq hi, Checked.ok_bind,
    Blob.sizeOf_eq hi, Checked.ok_bind, if_pos List.length_replicate, hbuf, hsame]
  rfl

/-! ## One reset -/

section

variable (hlib : ∀ x ∈ Library.behaviors, m.behavior? x.1 = some x.2) (hb : b.OfLibrary)

include hlib hb

theorem Blob.OfLibrary.exists_behavior (hi : i < b.size) :
    ∃ x ∈ Library.behaviors, b.typeOf i = .ok x.1 ∧ m.behaviorAt b i = .ok x.2 := by
  obtain ⟨type, htype⟩ := b.typeOf_eq hi
  obtain ⟨x, hx, rfl⟩ := List.mem_map.mp (hb i type htype)
  refine ⟨x, hx, htype, ?_⟩
  rw [Machine.behaviorAt, if_neg (Nat.not_le.mpr hi), htype, Checked.ok_bind, hlib x hx]
  rfl

variable (hpar : b.ParallelsRun)

include hpar

/-- On default data the reset functions of the library have nothing to do. -/
theorem Machine.resetNode_exec (hi : i < b.size) {w : World b} (hw : (w.inst.cell i).bytes = b.defaults i) :
    (m.resetNode i).exec w = (.ok (), w) := by
  obtain ⟨x, hx, htype, hbh⟩ := hb.exists_behavior hlib hi
  have hnode : m.resetNode (b := b) i = x.2.reset i := by
    rw [Machine.resetNode, hbh]
    rfl
  rw [hnode]
  by_cases hp : x.2 = parallel
  · have hfill : w.inst.fill i Status.running.bits = .ok w.inst := by
      refine Instance.fill_self hi fun byte hbyte => ?_
      rw [hw] at hbyte
      refine hpar i ?_ byte hbyte
      rw [htype, id_unique x hx (parallelId, parallel) (by simp [Library.behaviors]) hp]
    have hreset : (Run.update fun s => s.fill i Status.running.bits : Run b Unit).Yields w
        fun r w' => (r, w') = (.ok (), w) := by
      rw [yields_update, hfill]
    rw [hp]
    exact hreset
  · rw [reset_of_ne hx hp]
    rfl

theorem Machine.resetNodes_exec {w : World b} : ∀ {nodes : List Nat},
    (∀ j ∈ nodes, j < b.size ∧ (w.inst.cell j).bytes = b.defaults j) →
    (nodes.forM (m.resetNode (b := b))).exec w = (.ok (), w)
  | [], _ => rfl
  | j :: nodes, hnodes => by
      rw [List.forall_mem_cons] at hnodes
      rw [List.forM_eq_forM, List.forM_cons, exec_bind, resetNode_exec hlib hb hpar hnodes.1.1 hnodes.1.2]
      exact resetNodes_exec hnodes.2

/-- A reset puts the subtree back in one piece; what is left to do is to record it. -/
theorem Machine.reset_exec (hi : i < b.size) (w : World b) : ∃ s, w.inst.resetSubtree i = .ok s ∧
    (m.reset i).exec w = (m.trace i .reset).exec ⟨s, w.board⟩ := by
  obtain ⟨x, hx, -, hbh⟩ := hb.exists_behavior hlib hi
  obtain ⟨s, hs, hnew⟩ := w.inst.resetSubtree_renews hi
  have hlt := Blob.lt_stop hi
  have hnodes : ∀ j ∈ List.range' i (b.stop i - i), j < b.size ∧ (s.cell j).bytes = b.defaults j := by
    intro j hj
    rw [List.mem_range'_1] at hj
    refine ⟨Nat.lt_of_lt_of_le (by omega) (Blob.stop_le hi), ?_⟩
    rw [hnew.inside j hj.1 (by omega)]
  have hreset : m.reset (b := b) i = (do
      Run.update (·.resetSubtree i)
      (List.range' i (b.stop i - i)).forM m.resetNode
      m.trace i .reset) := by
    rw [Machine.reset, hbh, Blob.endOf_eq hi]
    rfl
  have hrestore : (Run.update (·.resetSubtree i) : Run b Unit).exec w = (.ok (), ⟨s, w.board⟩) := by
    have h : (Run.update (·.resetSubtree i) : Run b Unit).Yields w
        fun r w' => (r, w') = (.ok (), ⟨s, w.board⟩) := by
      rw [yields_update, hs]
    exact h
  refine ⟨s, hs, ?_⟩
  rw [hreset, exec_bind, hrestore]
  simp only [exec_bind, Machine.resetNodes_exec hlib hb hpar (w := ⟨s, w.board⟩) hnodes]

theorem Machine.reset_renews (hi : i < b.size) (w : World b) : (m.reset i).Yields w fun _ w' =>
    w.inst.resetSubtree i = .ok w'.inst := by
  obtain ⟨s, hs, hexec⟩ := Machine.reset_exec hlib hb hpar hi w
  have hinst := (m.trace_yields i .reset ⟨s, w.board⟩).1
  rw [Yields, hexec, hs, hinst]

end

/-! ## The whole tree -/

/-- A reset of the root leaves nothing of a tree whose memory is intact but the tick counter. -/
theorem Instance.resetSubtree_root {s s' : Instance b} (hdata : m.Intact s.data) (hdepth : s.depth = 0)
    (h : s.resetSubtree 0 = .ok s') : s' = s.resetAll := by
  obtain ⟨s₁, hs₁, hnew⟩ := s.resetSubtree_renews b.size_pos
  cases hs₁.symm.trans h
  have hmem : s'.data = defaults b := by
    refine Vector.ext fun k hk => ?_
    rw [← Option.some_inj, ← Vector.getElem?_eq_getElem, ← Vector.getElem?_eq_getElem,
      resetSubtree_data b.size_pos h]
    split
    · rfl
    · rename_i hout
      refine hdata k fun ⟨j, hj, hin, _⟩ => hout ?_
      obtain ⟨h₁, h₂⟩ := offset_mem_span b.size_pos (Nat.zero_le j) (by rw [b.stop_root]; exact hj)
      exact ⟨Nat.le_trans h₁ hin.1, Nat.lt_of_lt_of_le hin.2 h₂⟩
  have hstates : s'.states = .replicate b.size none := by
    refine Vector.ext fun j hj => ?_
    have hcell := congrArg Cell.state (hnew.inside j (Nat.zero_le j) (by rw [b.stop_root]; exact hj))
    simp only [cell, Vector.getElem?_eq_getElem hj, Option.join_some] at hcell
    rw [hcell, Vector.getElem_replicate]
  obtain ⟨data, states, tick, depth⟩ := s'
  cases hmem
  cases hstates
  cases hnew.tick
  cases hnew.depth.trans hdepth
  rfl

/-- The event without the number of its tick. -/
def TraceEvent.untimed (ev : TraceEvent) : Nat × NodeEvent := (ev.node, ev.event)

/-- The same values, components and events, but for the numbers of the ticks of the events. -/
def Blackboard.SameButTicks (bb bb' : Blackboard) : Prop :=
  bb.Matches (fun evs evs' => evs'.map TraceEvent.untimed = evs.map TraceEvent.untimed) (fun _ => True) bb'

theorem Blackboard.SameButTicks.refl (bb : Blackboard) : bb.SameButTicks bb :=
  ⟨fun _ => .inl rfl, fun _ _ => rfl, rfl⟩

section

variable (hlib : ∀ x ∈ Library.behaviors, m.behavior? x.1 = some x.2) (hb : b.OfLibrary)

include hlib hb

/-- No call depends on the tick counter. -/
theorem Coupling.sameButTicks_upheld :
    (Coupling.ofBoards m b fun x y => x.2.SameButTicks y.2).Upheld m m := by
  refine Coupling.ofBoards_upheld hlib hb (fun i _ v _ s x y hxy => ?_) (fun _ _ _ _ h => h)
    m.config.trace fun depth i ev => Coupling.relates_trace (fun n n' bb bb' ev h => ?_) (fun _ => trivial) ev
  · exact Variable.read_of_matches hxy (fun _ _ _ _ => trivial) i s
  · refine h.emit (fun _ => rfl) fun evs evs' he => ?_
    rw [List.map_append, List.map_append, he]
    rfl

namespace Tree

variable (hpar : b.ParallelsRun)

include hpar

theorem Settled.reset {t : Tree b} (ht : t.Settled m) (bb : Blackboard) :
    (t.reset m bb).2.1 = ⟨t.inst.resetAll, none⟩ := by
  have h := ({ t with last := none } : Tree b).run_yields bb
    (Machine.reset_renews hlib hb hpar b.size_pos ⟨t.inst, bb⟩)
  have hinst := Instance.resetSubtree_root ht.data ht.depth h
  exact congrArg (fun s => (⟨s, none⟩ : Tree b)) hinst

/-- In any reachable state, a reset of the tree leaves a new tree that counts its ticks on, also where its
record fails: a second reset changes nothing, and no later call can tell. A reset of any node puts back its
subtree and leaves everything else alone. -/
theorem reset_eq_new :
    (∀ (acts : List (Act × Blackboard)) (bb : Blackboard),
      let t := (Tree.new b).after m acts
      let t' := (t.reset m bb).2.1
      t' = ⟨{ Instance.new b with tick := t.inst.tick }, none⟩ ∧ t'.inst = t.inst.resetAll ∧
        (∀ bb', (t'.reset m bb').2.1 = t') ∧
        ∀ more : List (Act × Blackboard × Blackboard), (∀ x ∈ more, x.2.1.SameButTicks x.2.2) →
          List.Forall₂ (fun x y => y.1 = x.1 ∧ x.2.SameButTicks y.2)
            ((Tree.new b).answers m (more.map fun x => (x.1, x.2.1)))
            (t'.answers m (more.map fun x => (x.1, x.2.2)))) ∧
    ∀ (i : Nat) (w : World b),
      let w' := ((m.reset i).exec w).2
      (i < b.size → w.inst.Renews i (b.stop i) w'.inst ∧ ∀ k : Nat,
        ¬ Within (b.offset i) (b.offset (b.stop i - 1) + b.extent (b.stop i - 1)) k →
          w'.inst.data[k]? = w.inst.data[k]?) ∧
      (b.size ≤ i → (m.reset i).exec w = (.error (.error (.indexOutOfRange i b.size)), w)) := by
  constructor
  · intro acts bb t t'
    have ht : t.Settled m := settled_after hlib hb acts
    have heq : t' = ⟨t.inst.resetAll, none⟩ := ht.reset hlib hb hpar bb
    have ht' : t'.Settled m := by
      rw [heq]
      exact ⟨rfl, m.intact_defaults⟩
    refine ⟨heq, congrArg Tree.inst heq, fun bb' => ?_, fun more hmore => ?_⟩
    · rw [ht'.reset hlib hb hpar bb', heq]
      rfl
    · have hpairs : (Coupling.ofBoards m b fun x y => x.2.SameButTicks y.2).Pairs (Tree.new b) t' .empty .empty := by
        rw [heq]
        exact ⟨⟨rfl, rfl, m.intact_defaults, Blackboard.SameButTicks.refl _⟩, rfl⟩
      obtain ⟨hanswers, -⟩ := (Coupling.sameButTicks_upheld hlib hb).answers more ⟨_, _, hpairs⟩
        fun x hx n n' old old' _ => hmore x hx
      exact hanswers.imp fun x y ⟨hr, n, n', hboard⟩ => ⟨hr, hboard⟩
  · intro i w w'
    constructor
    · intro hi
      obtain ⟨s, hs, hnew⟩ := w.inst.resetSubtree_renews hi
      have h : w.inst.resetSubtree i = .ok w'.inst := Machine.reset_renews hlib hb hpar hi w
      cases hs.symm.trans h
      refine ⟨hnew, fun k hk => ?_⟩
      exact (Instance.resetSubtree_data hi h k).trans (if_neg hk)
    · intro hi
      have hout : m.behaviorAt b i = Checked.fail (.indexOutOfRange i b.size) := if_pos hi
      rw [Machine.reset, hout]
      rfl

end Tree

end

namespace Tree

/-- A parallel of a node that succeeds and one that keeps running. -/
def halfParallel : Blob :=
  ⟨⟨#[parallelId, fixedId, fixedId], #[3, 2, 3], #[0, 8, 16], #[2, 1, 1], #[0x0404, 1, 4]⟩, by decide⟩

theorem reset_eq_new_halfParallel : halfParallel.OfLibrary ∧ halfParallel.ParallelsRun ∧
    let t := (Tree.new halfParallel).after .ofLibrary [(.tick, .empty), (.abortAt 1, .empty)]
    let t' := (t.reset .ofLibrary .empty).2.1
    t.inst.data ≠ (Instance.new halfParallel).data ∧
      t' = ⟨{ Instance.new halfParallel with tick := t.inst.tick }, none⟩ ∧
      (t'.answers .ofLibrary [(.tick, .empty)]).map (·.1) = [.ok (some .running)] := by
  have hb : halfParallel.OfLibrary := by decide +kernel
  have hpar : halfParallel.ParallelsRun := by decide +kernel
  obtain ⟨hnew, -⟩ := (reset_eq_new Machine.HasLibrary.ofLibrary.behaviors hb hpar).1
    [(.tick, .empty), (.abortAt 1, .empty)] .empty
  refine ⟨hb, hpar, by decide +kernel, hnew, ?_⟩
  rw [hnew]
  decide +kernel

end Tree

end BehaviorTree
