import BehaviorTree.Proofs.Instance.Frame
import BehaviorTree.Proofs.Run.Yields

/-!
# Contracts of a tick

A contract says what is known of the data and the results of a node and its subtree, and which faults
may end a tick. If the behaviors of a machine uphold it node by node, every tick of a subtree keeps it
there and leaves the rest of the tree alone.
-/

namespace BehaviorTree

/-- `s'` differs from `s` in the data of node `i` only. -/
structure Instance.OwnData {b : Blob} (i : Nat) (s s' : Instance b) : Prop extends
    Instance.Frame (· = i) s s' where
  state : (s'.cell i).state = (s.cell i).state

structure Contract (b : Blob) where
  /-- The data of a node, at all times. -/
  data : Nat → List UInt8 → Prop
  /-- The data of a node right after its reset. -/
  fresh : Nat → List UInt8 → Prop
  /-- A node whose tick function starts. -/
  ready : Instance b → Nat → Prop
  /-- A node between ticks. -/
  holds : Instance b → Nat → Prop
  fault : Fault → Prop
  data_defaults : ∀ i < b.size, data i (b.defaults i)
  ready_of_cells : ∀ {s s' : Instance b} {i : Nat}, i < b.size →
    (∀ j, Within i (b.stop i) j → s'.cell j = s.cell j) → ready s i → ready s' i
  holds_of_cells : ∀ {s s' : Instance b} {i : Nat}, i < b.size →
    (∀ j, Within i (b.stop i) j → s'.cell j = s.cell j) → holds s i → holds s' i
  holds_of_quiet : ∀ {s : Instance b} {i : Nat}, i < b.size →
    (∀ j, Within i (b.stop i) j → ¬ s.Running j) → holds s i

namespace Contract

variable {b : Blob} {C : Contract b} {m : Machine} {s s' : Instance b} {i lo mid hi : Nat}

/-- The contract holds of the nodes from `lo` to before `hi`. -/
def On (C : Contract b) (s : Instance b) (lo hi : Nat) : Prop :=
  ∀ p, Within lo hi p → C.data p (s.cell p).bytes ∧ C.holds s p

theorem On.mono {lo' hi' : Nat} (h : C.On s lo hi) (hlo : lo ≤ lo') (hhi : hi' ≤ hi) : C.On s lo' hi' :=
  fun p hp => h p ⟨Nat.le_trans hlo hp.1, Nat.lt_of_lt_of_le hp.2 hhi⟩

theorem On.append (h : C.On s lo mid) (h' : C.On s mid hi) : C.On s lo hi := by
  intro p hp
  rcases Nat.lt_or_ge p mid with hlt | hge
  · exact h p ⟨hp.1, hlt⟩
  · exact h' p ⟨hge, hp.2⟩

theorem On.cons (hd : C.data i (s.cell i).bytes) (hh : C.holds s i) (h : C.On s (i + 1) hi) :
    C.On s i hi := by
  intro p hp
  rcases Nat.eq_or_lt_of_le hp.1 with rfl | hlt
  · exact ⟨hd, hh⟩
  · exact h p ⟨hlt, hp.2⟩

theorem On.congr (h : C.On s lo hi) (hhi : hi ≤ b.size) (hsame : ∀ j, lo ≤ j → s'.cell j = s.cell j) :
    C.On s' lo hi := by
  intro p hp
  rw [hsame p hp.1]
  refine ⟨(h p hp).1, C.holds_of_cells ?_ (fun j hj => hsame j (Nat.le_trans hp.1 hj.1)) (h p hp).2⟩
  exact Nat.lt_of_lt_of_le hp.2 hhi

theorem On.after {T : Nat → Prop} (h : C.On s lo hi) (hhi : hi ≤ b.size)
    (hf : s.Frame T s') (hT : ∀ j, T j → j < lo) : C.On s' lo hi :=
  h.congr hhi fun j hj => hf.cell j fun ht => Nat.not_lt.mpr hj (hT j ht)

theorem On.apart {T : Nat → Prop} (h : C.On s i (b.stop i)) (hi : i < b.size) (hf : s.Frame T s')
    (hT : ∀ j, T j → ¬ Within i (b.stop i) j) : C.On s' i (b.stop i) := by
  intro p hp
  have hle := Blob.stop_le_stop i hi p hp.1 hp.2
  have hsame : ∀ j, Within i (b.stop i) j → s'.cell j = s.cell j :=
    fun j hj => hf.cell j fun ht => hT j ht hj
  rw [hsame p hp]
  refine ⟨(h p hp).1, C.holds_of_cells ?_ (fun j hj => hsame j ?_) (h p hp).2⟩
  · have := Blob.stop_le hi
    have := hp.2
    omega
  · exact ⟨Nat.le_trans hp.1 hj.1, Nat.lt_of_lt_of_le hj.2 hle⟩

theorem On.clears (h : ∀ p, Within i (b.stop i) p → C.data p (s.cell p).bytes) (hi : i < b.size)
    (hc : s.Clears i (b.stop i) s') : C.On s' i (b.stop i) := by
  intro p hp
  have hle := Blob.stop_le_stop i hi p hp.1 hp.2
  refine ⟨by rw [hc.inside p hp.1 hp.2]; exact h p hp, C.holds_of_quiet ?_ fun j hj => ?_⟩
  · have := Blob.stop_le hi
    have := hp.2
    omega
  · exact hc.not_running ⟨Nat.le_trans hp.1 hj.1, Nat.lt_of_lt_of_le hj.2 hle⟩

/-- The rest of the tree does not depend on what the subtree of node `i` was before it became inactive. -/
def Forgives (C : Contract b) (i : Nat) : Prop :=
  ∀ {s s' : Instance b} {p : Nat}, i < b.size → p < b.size → ¬ Within i (b.stop i) p →
    (∀ j, ¬ Within i (b.stop i) j → s'.cell j = s.cell j) →
    (∀ j, Within i (b.stop i) j → ¬ s'.Running j) → C.holds s p → C.holds s' p

class Forgiving (C : Contract b) : Prop where
  forgives : ∀ i, C.Forgives i

theorem forgives_root (C : Contract b) : C.Forgives 0 := fun _ hp hout _ _ _ =>
  absurd ⟨Nat.zero_le _, b.stop_root.symm ▸ hp⟩ hout

/-- A tick of node `i` that keeps the contract on its subtree and touches nothing else. -/
def Kept (C : Contract b) (i : Nat) (x : Run b Status) : Prop :=
  ∀ w, C.On w.inst i (b.stop i) → x.Yields w fun r w' =>
    w.inst.Frame (Within i (b.stop i)) w'.inst ∧ C.On w'.inst i (b.stop i) ∧
      match r with
      | .ok st => (w'.inst.cell i).state = some st
      | .error e => C.fault e

/-- The end of a tick function of node `i`: the contract holds again as soon as its result is recorded. -/
def Ends (C : Contract b) (i : Nat) (w : World b) (r : Except Fault Status) (w' : World b) : Prop :=
  w.inst.Frame (Within i (b.stop i)) w'.inst ∧ C.On w'.inst (i + 1) (b.stop i) ∧
    C.data i (w'.inst.cell i).bytes ∧
    match r with
    | .ok st => ∀ s' : Instance b, s'.cell i = { w'.inst.cell i with state := some st } →
        (∀ j, j ≠ i → s'.cell j = w'.inst.cell j) → C.holds s' i
    | .error e => C.fault e

/-- A tick function of node `i` that ends so whenever the node is ready. -/
def Served (C : Contract b) (i : Nat) (x : Run b Status) : Prop :=
  ∀ w, C.On w.inst (i + 1) (b.stop i) → C.data i (w.inst.cell i).bytes → C.ready w.inst i →
    x.Yields w (C.Ends i w)

/-- What the contract asks of a machine, node by node. -/
structure Upheld (C : Contract b) (m : Machine) : Prop where
  unknown : ∀ i < b.size, ∀ e, m.behaviorAt b i = .error e → C.fault e
  tooDeep : ∀ i < b.size, C.fault (.error (.depthExceeded i m.config.maxTickDepth))
  untraced : m.config.trace = true → ∀ (bb : Blackboard) (ev : TraceEvent) (e : BoardError),
    (bb.emit ev).2 = .error e → C.fault (.error (.board e))
  reset : ∀ i < b.size, ∀ bh, m.behaviorAt b i = .ok bh → ∀ w : World b,
    (w.inst.cell i).bytes = b.defaults i → (bh.reset i).Yields w fun r w' =>
      w.inst.OwnData i w'.inst ∧ C.data i (w'.inst.cell i).bytes ∧
        match r with
        | .ok _ => C.fresh i (w'.inst.cell i).bytes
        | .error e => C.fault e
  start : ∀ i < b.size, ∀ s s', C.On s i (b.stop i) → ¬ s.Running i → s.OwnData i s' →
    C.holds s' i ∧ (C.fresh i (s'.cell i).bytes → C.ready s' i)
  resume : ∀ i < b.size, ∀ s, C.On s i (b.stop i) → s.Running i → C.ready s i
  tick : ∀ i < b.size, ∀ bh, m.behaviorAt b i = .ok bh → ∀ cb : Callbacks b,
    (∀ c ∈ b.childList i, C.Kept c (cb.tick c)) → C.Served i (bh.tick m.registries cb i)

end Contract

end BehaviorTree
