import BehaviorTree.Proofs.Machine.Reset
import BehaviorTree.Proofs.Run.Access
import BehaviorTree.Tree

/-!
# Runs of a tree

A run is a sequence of calls on one tree, each with whatever blackboard its host hands in. A machine that
upholds a contract keeps it through every run in which the root is the only node ticked by a caller.
-/

namespace BehaviorTree

inductive Act where
  | tick
  | reset
  | tickAt (i : Nat)
  | resetAt (i : Nat)
  | abortAt (i : Nat)
  | restoreAt (i : Nat)
  | restoreAll
  deriving DecidableEq, Repr

namespace Act

def TicksRoot : Act → Prop
  | tickAt _ => False
  | _ => True

def Names (b : Blob) : Act → Prop
  | tickAt i | resetAt i | abortAt i | restoreAt i => i < b.size
  | _ => True

instance : DecidablePred TicksRoot
  | .tickAt _ => isFalse id
  | .tick | .reset | .resetAt _ | .abortAt _ | .restoreAt _ | .restoreAll => isTrue trivial

instance (b : Blob) : DecidablePred (Names b)
  | .tickAt i | .resetAt i | .abortAt i | .restoreAt i => inferInstanceAs (Decidable (i < b.size))
  | .tick | .reset | .restoreAll => isTrue trivial

end Act

variable {b : Blob} {m : Machine} {C : Contract b}

namespace Tree

/-- Makes a call. The answer is an error, a result, or nothing. -/
def call (t : Tree b) (m : Machine) (bb : Blackboard) :
    Act → Except Fault (Option Status) × Tree b × Blackboard
  | .tick => match t.tick m bb with
    | (r, t, bb) => (r.map some, t, bb)
  | .reset => match t.reset m bb with
    | (r, t, bb) => (r.map fun _ => none, t, bb)
  | .tickAt i => t.run bb (some <$> m.tick i)
  | .resetAt i => t.run bb (do m.reset i; return none)
  | .abortAt i => t.run bb (do Machine.abort i; return none)
  | .restoreAt i => t.run bb (do Run.update (·.resetSubtree i); return none)
  | .restoreAll => t.run bb (do Run.update fun s => .ok s.resetAll; return none)

def after (t : Tree b) (m : Machine) : List (Act × Blackboard) → Tree b
  | [] => t
  | (a, bb) :: rest => (t.call m bb a).2.1.after m rest

/-- What every call of a kind keeps, a run of such calls keeps. -/
theorem after_induction {P : Tree b → Prop} {A : Act → Prop}
    (step : ∀ (t : Tree b) (a : Act) (bb : Blackboard), A a → P t → P (t.call m bb a).2.1) :
    ∀ (acts : List (Act × Blackboard)), (∀ x ∈ acts, A x.1) → ∀ {t : Tree b}, P t → P (t.after m acts)
  | [], _, _, ht => ht
  | (a, bb) :: rest, hacts, t, ht => by
      rw [List.forall_mem_cons] at hacts
      exact after_induction step rest hacts.2 (step t a bb hacts.1 ht)

theorem after_append : ∀ (xs ys : List (Act × Blackboard)) {t : Tree b},
    t.after m (xs ++ ys) = (t.after m xs).after m ys
  | [], _, _ => rfl
  | (a, bb) :: xs, ys, t => after_append xs ys (t := (t.call m bb a).2.1)

/-- The tree after `n` ticks in a row, each on a blackboard of its own. -/
def ticked (t : Tree b) (m : Machine) (bbs : Nat → Blackboard) : Nat → Tree b
  | 0 => t
  | n + 1 => ((t.ticked m bbs n).tick m (bbs n)).2.1

/-- The answer of tick `n` of these, the first being tick 0. -/
def resultAt (t : Tree b) (m : Machine) (bbs : Nat → Blackboard) (n : Nat) : Except Fault Status :=
  ((t.ticked m bbs n).tick m (bbs n)).1

/-- The first `n` of these ticks all end with `running`. -/
def Unfinished (t : Tree b) (m : Machine) (bbs : Nat → Blackboard) (n : Nat) : Prop :=
  ∀ j < n, t.resultAt m bbs j = .ok .running

theorem ticked_eq_after (t : Tree b) (bbs : Nat → Blackboard) (n : Nat) :
    t.ticked m bbs n = t.after m ((List.range n).map fun j => (.tick, bbs j)) := by
  induction n with
  | zero => rfl
  | succ n ih =>
      rw [List.range_succ, List.map_append, after_append, ← ih]
      rfl

/-- What every tick keeps, ticks in a row keep. -/
theorem ticked_induction {P : Tree b → Prop} {bbs : Nat → Blackboard} {n : Nat}
    (step : ∀ j < n, ∀ t : Tree b, P t → P (t.tick m (bbs j)).2.1) {t : Tree b} (ht : P t) :
    ∀ j ≤ n, P (t.ticked m bbs j)
  | 0, _ => ht
  | j + 1, hj => step j hj _ (ticked_induction step ht j (Nat.le_of_succ_le hj))

theorem run_yields {α : Type} (t : Tree b) (bb : Blackboard) {x : Run b α}
    {Q : Except Fault α → World b → Prop} (h : x.Yields ⟨t.inst, bb⟩ Q) :
    Q (t.run bb x).1 ⟨(t.run bb x).2.1.inst, (t.run bb x).2.2⟩ := h

theorem tick_yields (t : Tree b) (bb : Blackboard) {Q : Except Fault Status → World b → Prop}
    (h : (m.tick 0).Yields ⟨t.inst.advance, bb⟩ Q) :
    Q (t.tick m bb).1 ⟨(t.tick m bb).2.1.inst, (t.tick m bb).2.2⟩ := by
  unfold tick run
  unfold Run.Yields at h
  rcases hx : (m.tick 0).exec ⟨t.inst.advance, bb⟩ with ⟨_ | _, w⟩
  · rw [hx] at h
    exact h
  · rw [hx] at h
    exact h

end Tree

namespace Contract

/-- What holds of a tree between two calls. -/
structure Between (C : Contract b) (t : Tree b) : Prop where
  everywhere : C.Everywhere t.inst
  depth : t.inst.depth = 0

theorem everywhere_defaults {s : Instance b} (h : ∀ i < b.size, s.cell i = ⟨none, b.defaults i⟩) :
    C.Everywhere s := by
  refine everywhere_of_quiet (fun i hi => ?_) fun i hrun => ?_
  · rw [h i hi]
    exact C.data_defaults i hi
  · have hi := Instance.Running.lt hrun
    rw [Instance.Running, h i hi] at hrun
    cases hrun

theorem between_new : C.Between (Tree.new b) :=
  ⟨everywhere_defaults fun _ hi => Instance.cell_new hi, rfl⟩

theorem Between.advance {t : Tree b} (h : C.Between t) : C.On t.inst.advance 0 (b.stop 0) := by
  rw [b.stop_root]
  exact h.everywhere.congr (Nat.le_refl _) fun _ _ => rfl

/-- What a call leaves behind, and how it may fail. -/
def Left (C : Contract b) (a : Act) {α : Type} (r : Except Fault α) (w : World b) : Prop :=
  (C.Everywhere w.inst ∧ w.inst.depth = 0) ∧ ∀ e, r = .error e → a.Names b → C.fault e

theorem left_of_run {t : Tree b} {bb : Blackboard} {a : Act} {x : Run b (Option Status)}
    (h : x.Yields ⟨t.inst, bb⟩ (C.Left a)) : C.Between (t.run bb x).2.1 ∧
      ∀ e, (t.run bb x).1 = .error e → a.Names b → C.fault e := by
  have hl := t.run_yields bb h
  exact ⟨⟨hl.1.1, hl.1.2⟩, hl.2⟩

theorem left_of_unit {w : World b} {a : Act} {x : Run b Unit} (h : x.Yields w (C.Left a)) :
    (x >>= fun _ => pure (none : Option Status)).Yields w (C.Left a) :=
  h.bind (fun _ _ hl => ⟨hl.1, fun e he => by cases he⟩) fun _ _ hl => ⟨hl.1, fun e he => hl.2 e (by cases he; rfl)⟩

namespace Upheld

theorem tick_between (h : C.Upheld m) {t : Tree b} (ht : C.Between t) (bb : Blackboard) :
    C.Between (t.tick m bb).2.1 ∧ ∀ e, (t.tick m bb).1 = .error e → C.fault e := by
  have hkept := h.tickWithin_kept (m.config.maxTickDepth - t.inst.depth) 0 b.size_pos
    ⟨t.inst.advance, bb⟩ ht.advance
  have hl : C.Left .tick (t.tick m bb).1 ⟨(t.tick m bb).2.1.inst, (t.tick m bb).2.2⟩ := by
    refine t.tick_yields bb ?_
    rw [Machine.tick, Run.yields_bind, Run.yields_inst]
    refine hkept.mono ?_
    rintro r w' ⟨hf, hon', hr⟩
    refine ⟨⟨?_, hf.depth.trans ht.depth⟩, fun e he _ => ?_⟩
    · rw [b.stop_root] at hon'
      exact hon'
    · subst he
      exact hr
  exact ⟨⟨hl.1.1, hl.1.2⟩, fun e he => hl.2 e he trivial⟩

theorem ticked_between (h : C.Upheld m) {t : Tree b} (ht : C.Between t) (bbs : Nat → Blackboard) (n : Nat) :
    C.Between (t.ticked m bbs n) :=
  Tree.ticked_induction (P := C.Between) (fun j _ _ ht => (h.tick_between ht (bbs j)).1) ht n (Nat.le_refl n)

theorem resetTree_left (h : C.Upheld m) {a : Act} {i : Nat} (hfor : C.Forgives i) (ha : a.Names b → i < b.size)
    (w : World b) (hw : C.Everywhere w.inst) (hd : w.inst.depth = 0) :
    (m.reset i : Run b Unit).Yields w (C.Left a) := by
  rcases Nat.lt_or_ge i b.size with hi | hi
  · refine (h.resetTree hfor hi w hw).mono ?_
    rintro r w' ⟨hf, hall, hr⟩
    exact ⟨⟨hall, hf.depth.trans hd⟩, fun e he _ => hr e he⟩
  · have hout : m.behaviorAt b i = Checked.fail (.indexOutOfRange i b.size) := if_pos hi
    unfold Machine.reset
    rw [Run.yields_bind, Run.yields_lift, hout]
    exact ⟨⟨hw, hd⟩, fun e he hn => absurd (ha hn) (Nat.not_lt.mpr hi)⟩

theorem abort_left {a : Act} {i : Nat} (hfor : C.Forgives i) (ha : a.Names b → i < b.size) (w : World b)
    (hw : C.Everywhere w.inst) (hd : w.inst.depth = 0) : (Machine.abort i : Run b Unit).Yields w (C.Left a) := by
  unfold Machine.abort
  split
  · rename_i hi
    exact ⟨⟨hw, hd⟩, fun e _ hn => absurd (ha hn) (Nat.not_lt.mpr hi)⟩
  · rename_i hi
    refine (Run.clearSubtree_yields (Nat.lt_of_not_le hi)).mono ?_
    rintro r w' ⟨rfl, hc, -⟩
    exact ⟨⟨hw.aborted hfor (Nat.lt_of_not_le hi) hc, hc.depth.trans hd⟩, fun e he => by cases he⟩

theorem restore_left {a : Act} {i : Nat} (hfor : C.Forgives i) (ha : a.Names b → i < b.size) (w : World b)
    (hw : C.Everywhere w.inst) (hd : w.inst.depth = 0) :
    (Run.update (·.resetSubtree i) : Run b Unit).Yields w (C.Left a) := by
  rw [Run.yields_update]
  rcases Nat.lt_or_ge i b.size with hi | hi
  · obtain ⟨s', hs', hnew⟩ := Instance.resetSubtree_renews w.inst hi
    simp only [hs']
    exact ⟨⟨hw.restored hfor hi hnew, hnew.depth.trans hd⟩, fun e he => by cases he⟩
  · simp only [w.inst.resetSubtree_of_le hi]
    exact ⟨⟨hw, hd⟩, fun e _ hn => absurd (ha hn) (Nat.not_lt.mpr hi)⟩

theorem reset_between (h : C.Upheld m) {t : Tree b} (ht : C.Between t) (bb : Blackboard) :
    C.Between (t.reset m bb).2.1 ∧ ∀ e, (t.reset m bb).1 = .error e → C.fault e := by
  have hl := Tree.run_yields ({ t with last := none } : Tree b) bb (h.resetTree_left (a := .reset)
    C.forgives_root (fun _ => b.size_pos) ⟨t.inst, bb⟩ ht.everywhere ht.depth)
  exact ⟨⟨hl.1.1, hl.1.2⟩, fun e hr => hl.2 e hr trivial⟩

/-- No call breaks the contract, and a call on nodes of the tree fails as the contract says. -/
theorem call_between [C.Forgiving] (h : C.Upheld m) {t : Tree b} (ht : C.Between t) {a : Act}
    (ha : a.TicksRoot) (bb : Blackboard) : C.Between (t.call m bb a).2.1 ∧
      ∀ e, (t.call m bb a).1 = .error e → a.Names b → C.fault e := by
  have hall := ht.everywhere
  have hd := ht.depth
  have hfor : ∀ i, C.Forgives i := Forgiving.forgives
  cases a with
  | tick =>
      obtain ⟨hb, he⟩ := h.tick_between ht bb
      exact ⟨hb, fun e hr _ => he e (Checked.map_eq_error.mp hr)⟩
  | reset =>
      obtain ⟨hb, he⟩ := h.reset_between ht bb
      exact ⟨hb, fun e hr _ => he e (Checked.map_eq_error.mp hr)⟩
  | tickAt i => exact ha.elim
  | resetAt i => exact left_of_run (left_of_unit (h.resetTree_left (hfor i) id _ hall hd))
  | abortAt i => exact left_of_run (left_of_unit (abort_left (hfor i) id _ hall hd))
  | restoreAt i => exact left_of_run (left_of_unit (restore_left (hfor i) id _ hall hd))
  | restoreAll =>
      refine left_of_run (left_of_unit ?_)
      rw [Run.yields_update]
      exact ⟨⟨everywhere_defaults fun i hi => Instance.cell_new hi, rfl⟩, fun e he => by cases he⟩

theorem after_between [C.Forgiving] (h : C.Upheld m) (acts : List (Act × Blackboard))
    (hacts : ∀ x ∈ acts, x.1.TicksRoot) {t : Tree b} (ht : C.Between t) : C.Between (t.after m acts) :=
  Tree.after_induction (P := C.Between) (A := Act.TicksRoot) (fun _ _ bb ha ht => (h.call_between ht ha bb).1)
    acts hacts ht

end Upheld

end Contract

end BehaviorTree
